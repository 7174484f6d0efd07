import JuddOS.Processes
import JuddOS.Support.Stacks

/-!
# The process table as three stacks

The processes of a terminal form a chain of calls, the running one on top.  `Coherent` says
that the kernel's bookkeeping is that of three such chains without a common process: the
pid bits, the parent pointers, `most_recent_pcb`, the page of the running process, `tss.esp0`
and the values of `esp0` saved in PCBs and terminals.

While a `halt` is under way its process is still on top of its chain, since its stack is in
use.  What the fields hold in the meantime depends on how far the call has come (`liveOf`,
`recentOf`, `esp0Of`, `pageOf`).

The file proves that each step keeps `Coherent`; `ProcessTable` and `HaltPreemption` draw the
conclusions.
-/

namespace JuddOS

open Support

/-! ## Addresses -/

/-- The mask clears the 13 low bits. -/
theorem getCurrPcb_eq {esp : Nat} (h : esp < 2 ^ 32) :
    getCurrPcb esp = esp / 2 ^ 13 * 2 ^ 13 := by
  have hmask : pcbCalcOffset = (2 ^ 19 - 1) <<< 13 := by decide
  refine Nat.eq_of_testBit_eq fun i => ?_
  rw [getCurrPcb, hmask, Nat.testBit_and, Nat.testBit_shiftLeft, Nat.testBit_two_pow_sub_one,
    ← Nat.shiftLeft_eq, ← Nat.shiftRight_eq_div_pow, Nat.testBit_shiftLeft, Nat.testBit_shiftRight]
  by_cases hi : 13 ≤ i
  · rw [Nat.add_sub_cancel' hi]
    by_cases hlt : i - 13 < 19
    · simp [hi, hlt]
    · have hhigh : esp.testBit i = false := Nat.testBit_lt_two_pow
        (Nat.lt_of_lt_of_le h (Nat.pow_le_pow_right (by decide) (by omega)))
      simp [hhigh]
  · simp [hi]

theorem getCurrPcb_kernelStackTop {p : Nat} (hp : p < 6) :
    getCurrPcb (kernelStackTop p) = pcbAddr p := by
  have hall : ∀ p : Fin 6, getCurrPcb (kernelStackTop p) = pcbAddr p := by decide
  exact hall ⟨p, hp⟩

theorem pcbAddr_inj {p q : Nat} (hp : p < 6) (hq : q < 6) (h : pcbAddr p = pcbAddr q) : p = q := by
  rw [pcbAddr_eq, pcbAddr_eq] at h
  omega

theorem pcbAddr_ne_zero {p : Nat} (hp : p < 6) : pcbAddr p ≠ 0 := by
  rw [pcbAddr_eq]
  omega

/-! ## Chains -/

/-- The PCB on top of a chain, `NULL` for an empty one. -/
def topPcb : List Nat → Nat
  | [] => 0
  | p :: _ => pcbAddr p

/-- What the PCB of a process says about the rest of its chain. -/
structure Link (pcb : Nat → Pcb) (t : Tid) (p : Nat) (rest : List Nat) : Prop where
  pid : (pcb (pcbAddr p)).pid = p
  tid : (pcb (pcbAddr p)).tid = t
  parent : (pcb (pcbAddr p)).parent = topPcb rest
  esp0 : ∀ q, rest.head? = some q → (pcb (pcbAddr p)).esp0 = kernelStackTop q
  ebp : ∀ q, rest.head? = some q → getCurrPcb (pcb (pcbAddr p)).ebp = pcbAddr q

/-- The PCBs of a terminal. -/
def Chained (pcb : Nat → Pcb) (t : Tid) : List Nat → Prop
  | [] => True
  | p :: rest => Link pcb t p rest ∧ Chained pcb t rest

/-- Two PCBs that agree on what `Link` reads. -/
structure SameLink (pcb pcb' : Pcb) : Prop where
  pid : pcb'.pid = pcb.pid
  tid : pcb'.tid = pcb.tid
  parent : pcb'.parent = pcb.parent
  esp0 : pcb'.esp0 = pcb.esp0
  ebp : pcb'.ebp = pcb.ebp

theorem SameLink.of_eq {pcb pcb' : Pcb} (h : pcb' = pcb) : SameLink pcb pcb' := by
  subst h
  exact ⟨rfl, rfl, rfl, rfl, rfl⟩

theorem Link.congr {pcb pcb' : Nat → Pcb} {t : Tid} {p : Nat} {rest : List Nat}
    (h : Link pcb t p rest) (hsame : SameLink (pcb (pcbAddr p)) (pcb' (pcbAddr p))) :
    Link pcb' t p rest :=
  ⟨hsame.pid.trans h.pid, hsame.tid.trans h.tid, hsame.parent.trans h.parent,
    fun q hq => hsame.esp0.trans (h.esp0 q hq), fun q hq => by rw [hsame.ebp]; exact h.ebp q hq⟩

theorem Chained.congr {pcb pcb' : Nat → Pcb} {t : Tid} {c : List Nat} (h : Chained pcb t c)
    (hsame : ∀ p ∈ c, SameLink (pcb (pcbAddr p)) (pcb' (pcbAddr p))) : Chained pcb' t c := by
  induction c with
  | nil => trivial
  | cons p rest ih =>
      exact ⟨h.1.congr (hsame p (List.mem_cons_self ..)),
        ih h.2 fun q hq => hsame q (List.mem_cons_of_mem p hq)⟩

theorem Chained.tail {pcb : Nat → Pcb} {t : Tid} {c : List Nat} (h : Chained pcb t c) :
    Chained pcb t c.tail := by
  cases c with
  | nil => trivial
  | cons => exact h.2

/-- Every process of a chain has its own number in its PCB. -/
theorem Chained.pid {pcb : Nat → Pcb} {t : Tid} {c : List Nat} (h : Chained pcb t c) {p : Nat}
    (hp : p ∈ c) : (pcb (pcbAddr p)).pid = p := by
  induction c with
  | nil => cases hp
  | cons q rest ih =>
      rcases List.mem_cons.mp hp with rfl | hp
      · exact h.1.pid
      · exact ih h.2 hp

theorem Chained.tid {pcb : Nat → Pcb} {t : Tid} {c : List Nat} (h : Chained pcb t c) {p : Nat}
    (hp : p ∈ c) : (pcb (pcbAddr p)).tid = t := by
  induction c with
  | nil => cases hp
  | cons q rest ih =>
      rcases List.mem_cons.mp hp with rfl | hp
      · exact h.1.tid
      · exact ih h.2 hp

/-! ## Chains and open calls of `halt` -/

/-- The call `f` is one of the process on top of the chain, and past the release of its
number there is a caller below. -/
structure HaltOf (c : List Nat) (f : HaltFrame) : Prop where
  nonempty : c ≠ []
  current : f.currentPcb = topPcb c
  parent : f.parentPcb = topPcb c.tail
  child : f.pc.pidReleased = true → c.tail ≠ []

/-- The processes of a chain that are alive. -/
def liveOf (c : List Nat) (halting : Option HaltFrame) : List Nat :=
  if halting.any (·.pc.pidReleased) then c.tail else c

/-- `most_recent_pcb` of the terminal. -/
def recentOf (c : List Nat) (halting : Option HaltFrame) : Nat :=
  if halting.any (·.pc.recentSet) then topPcb c.tail else topPcb c

/-- `tss.esp0` while the terminal is scheduled. -/
def esp0Of (pcb : Nat → Pcb) (c : List Nat) (halting : Option HaltFrame) : Nat :=
  if halting.any (·.pc.esp0Restored) then (pcb (topPcb c)).esp0 else kernelStackTop (c.headD 0)

/-- The process whose page is mapped while the terminal is scheduled, where that is
certain. -/
def pageOf (c : List Nat) : Option HaltFrame → Option Nat
  | none => c.head?
  | some f => match f.pc with
    | .entered | .restored | .released => c.head?
    | .freed => none
    | .mapped | .recorded | .closed => if f.stale then none else c.tail.head?

@[simp] theorem liveOf_none (c : List Nat) : liveOf c none = c := by
  simp [liveOf]

@[simp] theorem recentOf_none (c : List Nat) : recentOf c none = topPcb c := by
  simp [recentOf]

@[simp] theorem esp0Of_none (pcb : Nat → Pcb) (c : List Nat) :
    esp0Of pcb c none = kernelStackTop (c.headD 0) := by
  simp [esp0Of]

@[simp] theorem topPcb_cons (p : Nat) (c : List Nat) : topPcb (p :: c) = pcbAddr p := by
  rw [topPcb]

theorem mem_of_pageOf {c : List Nat} {halting : Option HaltFrame} {p : Nat}
    (h : pageOf c halting = some p) : p ∈ c := by
  cases halting with
  | none => exact List.mem_of_mem_head? h
  | some f =>
      simp only [pageOf] at h
      split at h
      · exact List.mem_of_mem_head? h
      · exact List.mem_of_mem_head? h
      · exact List.mem_of_mem_head? h
      · cases h
      all_goals
        split at h
        · cases h
        · exact List.mem_of_mem_tail (List.mem_of_mem_head? h)

theorem liveOf_subset {c : List Nat} {halting : Option HaltFrame} {p : Nat}
    (h : p ∈ liveOf c halting) : p ∈ c := by
  unfold liveOf at h
  split at h
  · exact List.mem_of_mem_tail h
  · exact h

/-! ## The invariant -/

section Coherent

variable (k : Kernel) (live : List Nat) (halting : Tid → Option HaltFrame) (σ : Stacks Tid Nat)

/-- The process table, apart from what depends on the scheduled terminal. -/
structure Linked : Prop where
  separate : σ.Separate
  lt : ∀ t, ∀ p ∈ σ.chain t, p < 6
  alive : ∀ p, p ∈ live ↔ ∃ t, p ∈ liveOf (σ.chain t) (halting t)
  nodup : live.Nodup
  bits : ∀ p, p < 6 → (k.pidBits p = 1 ↔ p ∈ live)
  active : ∀ t, (k.terminalArr t).active = true ↔ σ.chain t ≠ []
  chained : ∀ t, Chained k.pcb t (σ.chain t)
  halts : ∀ t f, halting t = some f → HaltOf (σ.chain t) f
  recent : ∀ t, (k.terminalArr t).mostRecentPcb = recentOf (σ.chain t) (halting t)

/-- What is saved for a terminal that is not scheduled. -/
structure Saved (t : Tid) : Prop where
  esp0 : σ.chain t ≠ [] → (k.terminalArr t).esp0 = esp0Of k.pcb (σ.chain t) (halting t)
  page : ∀ p, pageOf (σ.chain t) (halting t) = some p →
    recentOf (σ.chain t) (halting t) = pcbAddr p

/-- The scheduled terminal. -/
structure Current : Prop where
  scheduled : σ.current = k.terminalNum
  idle : σ.chain k.terminalNum = [] → ∀ t, σ.chain t = []
  esp0 : σ.chain k.terminalNum ≠ [] →
    k.tssEsp0 = esp0Of k.pcb (σ.chain k.terminalNum) (halting k.terminalNum)
  page : ∀ p, pageOf (σ.chain k.terminalNum) (halting k.terminalNum) = some p →
    MapsProcess k.paging p

end Coherent

/-- **The invariant of the process table.** -/
structure Coherent (s : Sys) (σ : Stacks Tid Nat) : Prop where
  linked : Linked s.kernel s.live s.halting σ
  current : Current s.kernel s.halting σ
  saved : ∀ t, t ≠ s.kernel.terminalNum → Saved s.kernel s.halting σ t
  resumed : ∀ parent, s.resumed = some parent →
    s.halting s.kernel.terminalNum = none ∧
      ∃ q, (σ.chain s.kernel.terminalNum).head? = some q ∧ parent = pcbAddr q

/-- The chains before the first shell. -/
def emptyStacks : Stacks Tid Nat := ⟨fun _ => [], 0⟩

theorem coherent_boot (m : PowerOn) : Coherent (Sys.boot m) emptyStacks := by
  have hboot := booted_bootKernel m
  have hterm : (Sys.boot m).kernel.terminalArr = initialTerminal := hboot.terminalArr
  have hbits : (Sys.boot m).kernel.pidBits = fun _ => 0 := hboot.pidBits
  have hnum : (Sys.boot m).kernel.terminalNum = 0 := hboot.terminalNum
  constructor
  case linked =>
    constructor
    case separate => exact ⟨fun _ => List.nodup_nil, fun _ _ _ h => absurd h (List.not_mem_nil)⟩
    case lt => exact fun _ p h => absurd h (List.not_mem_nil)
    case alive => simp [Sys.boot, emptyStacks, liveOf]
    case nodup => exact List.nodup_nil
    case bits =>
      intro p _
      rw [hbits]
      simp [Sys.boot]
    case active => simp [hterm, initialTerminal, emptyStacks]
    case chained => exact fun _ => trivial
    case halts => exact fun _ _ h => nomatch h
    case recent =>
      intro t
      rw [hterm]
      rfl
  case current =>
    constructor
    case scheduled => exact hnum.symm
    case idle => exact fun _ _ => rfl
    case esp0 => exact fun h => absurd rfl h
    case page => exact fun _ h => nomatch h
  case saved => exact fun _ _ => ⟨fun h => absurd rfl h, fun _ h => nomatch h⟩
  case resumed => exact fun _ h => nomatch h

/-! ## Statements of the scheduled process -/

/-- The processes of the scheduled terminal and of the others. -/
theorem Linked.mem_live {k : Kernel} {live : List Nat} {halting : Tid → Option HaltFrame}
    {σ : Stacks Tid Nat} (h : Linked k live halting σ) (n : Tid) (p : Nat) :
    p ∈ live ↔ p ∈ liveOf (σ.chain n) (halting n) ∨
      ∃ t, t ≠ n ∧ p ∈ liveOf (σ.chain t) (halting t) := by
  rw [h.alive]
  constructor
  · rintro ⟨t, ht⟩
    rcases eq_or_ne t n with rfl | hne
    · exact .inl ht
    · exact .inr ⟨t, hne, ht⟩
  · rintro (hn | ⟨t, -, ht⟩)
    · exact ⟨n, hn⟩
    · exact ⟨t, ht⟩

/-- The saved values of a terminal that a step does not touch. -/
theorem Saved.congr {k k' : Kernel} {halting halting' : Tid → Option HaltFrame}
    {σ σ' : Stacks Tid Nat} {t : Tid} (h : Saved k halting σ t)
    (hterm : k'.terminalArr t = k.terminalArr t) (hhalt : halting' t = halting t)
    (hchain : σ'.chain t = σ.chain t)
    (hpcb : (k'.pcb (topPcb (σ.chain t))).esp0 = (k.pcb (topPcb (σ.chain t))).esp0) :
    Saved k' halting' σ' t where
  esp0 hne := by
    rw [hchain] at hne
    rw [hterm, h.esp0 hne, hhalt, hchain, esp0Of, esp0Of, hpcb]
  page p hp := by
    rw [hhalt, hchain] at hp ⊢
    exact h.page p hp

/-- A step that only concerns terminal `n` and leaves the chains alone. -/
theorem Linked.statement {k : Kernel} {live : List Nat} {halting : Tid → Option HaltFrame}
    {σ : Stacks Tid Nat} (h : Linked k live halting σ) (n : Tid) (k' : Kernel)
    (live' : List Nat) (now : Option HaltFrame)
    (hpcb : ∀ addr, SameLink (k.pcb addr) (k'.pcb addr))
    (hterm : ∀ t, t ≠ n → k'.terminalArr t = k.terminalArr t)
    (hactive : (k'.terminalArr n).active = (k.terminalArr n).active)
    (hhalt : ∀ f, now = some f → HaltOf (σ.chain n) f)
    (halive : ∀ p, p ∈ live' ↔ p ∈ liveOf (σ.chain n) now ∨
      ∃ t, t ≠ n ∧ p ∈ liveOf (σ.chain t) (halting t))
    (hnodup : live'.Nodup) (hbits : ∀ p, p < 6 → (k'.pidBits p = 1 ↔ p ∈ live'))
    (hrecent : (k'.terminalArr n).mostRecentPcb = recentOf (σ.chain n) now) :
    Linked k' live' (Function.update halting n now) σ where
  separate := h.separate
  lt := h.lt
  nodup := hnodup
  bits := hbits
  chained t := (h.chained t).congr fun p _ => hpcb _
  alive p := by
    rw [halive]
    constructor
    · rintro (hn | ⟨t, hne, ht⟩)
      · exact ⟨n, by rwa [Function.update_self]⟩
      · exact ⟨t, by rwa [Function.update_of_ne hne]⟩
    · rintro ⟨t, ht⟩
      rcases eq_or_ne t n with rfl | hne
      · rw [Function.update_self] at ht
        exact .inl ht
      · rw [Function.update_of_ne hne] at ht
        exact .inr ⟨t, hne, ht⟩
  active t := by
    rcases eq_or_ne t n with rfl | hne
    · rw [hactive]
      exact h.active _
    · rw [hterm t hne]
      exact h.active t
  halts t f hf := by
    rcases eq_or_ne t n with rfl | hne
    · rw [Function.update_self] at hf
      exact hhalt f hf
    · rw [Function.update_of_ne hne] at hf
      exact h.halts t f hf
  recent t := by
    rcases eq_or_ne t n with rfl | hne
    · rw [Function.update_self]
      exact hrecent
    · rw [hterm t hne, Function.update_of_ne hne]
      exact h.recent t

/-- **A statement of the process on the scheduled terminal** that leaves the chains alone: what
has to be checked is the scheduled terminal. -/
theorem Coherent.statement {s : Sys} {σ : Stacks Tid Nat} (h : Coherent s σ) (k' : Kernel)
    (live' : List Nat) (now : Option HaltFrame)
    (hnum : k'.terminalNum = s.kernel.terminalNum)
    (hpcb : ∀ addr, SameLink (s.kernel.pcb addr) (k'.pcb addr))
    (hterm : ∀ t, t ≠ s.kernel.terminalNum → k'.terminalArr t = s.kernel.terminalArr t)
    (hactive : (k'.terminalArr s.kernel.terminalNum).active =
      (s.kernel.terminalArr s.kernel.terminalNum).active)
    (hhalt : ∀ f, now = some f → HaltOf (σ.chain s.kernel.terminalNum) f)
    (halive : ∀ p, p ∈ live' ↔ p ∈ liveOf (σ.chain s.kernel.terminalNum) now ∨
      ∃ t, t ≠ s.kernel.terminalNum ∧ p ∈ liveOf (σ.chain t) (s.halting t))
    (hnodup : live'.Nodup) (hbits : ∀ p, p < 6 → (k'.pidBits p = 1 ↔ p ∈ live'))
    (hrecent : (k'.terminalArr s.kernel.terminalNum).mostRecentPcb =
      recentOf (σ.chain s.kernel.terminalNum) now)
    (hesp0 : σ.chain s.kernel.terminalNum ≠ [] →
      k'.tssEsp0 = esp0Of k'.pcb (σ.chain s.kernel.terminalNum) now)
    (hpage : ∀ p, pageOf (σ.chain s.kernel.terminalNum) now = some p →
      MapsProcess k'.paging p) :
    Coherent
      { kernel := k', live := live', resumed := none
        halting := Function.update s.halting s.kernel.terminalNum now } σ where
  linked := h.linked.statement _ k' live' now hpcb hterm hactive hhalt halive hnodup hbits hrecent
  current :=
    { scheduled := h.current.scheduled.trans hnum.symm
      idle := by
        dsimp only
        rw [hnum]
        exact h.current.idle
      esp0 := by
        dsimp only
        rw [hnum, Function.update_self]
        exact hesp0
      page := by
        dsimp only
        rw [hnum, Function.update_self]
        exact hpage }
  saved t ht := by
    have hne : t ≠ s.kernel.terminalNum := hnum ▸ ht
    exact (h.saved t hne).congr (hterm t hne) (Function.update_of_ne hne ..) rfl (hpcb _).esp0
  resumed _ hr := nomatch hr

/-- The chain of the scheduled terminal, once there is a process. -/
theorem Coherent.running {s : Sys} {σ : Stacks Tid Nat} (h : Coherent s σ)
    (hlive : s.live ≠ []) :
    ∃ p rest, σ.chain s.kernel.terminalNum = p :: rest ∧ p < 6 ∧
      Link s.kernel.pcb s.kernel.terminalNum p rest := by
  cases hchain : σ.chain s.kernel.terminalNum with
  | nil =>
      obtain ⟨p, hp⟩ := List.exists_mem_of_ne_nil _ hlive
      obtain ⟨t, ht⟩ := (h.linked.alive p).mp hp
      have hmem := liveOf_subset ht
      rw [h.current.idle hchain t] at hmem
      exact absurd hmem (List.not_mem_nil)
  | cons p rest =>
      have hlinks := h.linked.chained s.kernel.terminalNum
      rw [hchain] at hlinks
      exact ⟨p, rest, rfl, h.linked.lt _ p (hchain ▸ List.mem_cons_self ..), hlinks.1⟩

/-- `execute` that is answered with -1. -/
theorem Coherent.returned {s : Sys} {σ : Stacks Tid Nat} (h : Coherent s σ) (size : Nat)
    (opened : Buf) :
    Coherent { s with
      kernel := { s.kernel with sizeOfArgs := size, openedFile := opened }
      resumed := none } σ := by
  have hstep := h.statement { s.kernel with sizeOfArgs := size, openedFile := opened } s.live
    (s.halting s.kernel.terminalNum) rfl (fun _ => .of_eq rfl) (fun _ _ => rfl) rfl
    (h.linked.halts _) (h.linked.mem_live _) h.linked.nodup h.linked.bits (h.linked.recent _)
    h.current.esp0 h.current.page
  rwa [Function.update_eq_self] at hstep

/-- The call of `halt`: nothing but the local variables changes. -/
theorem Coherent.haltCall {s : Sys} {σ : Stacks Tid Nat} (h : Coherent s σ)
    (hnone : s.halting s.kernel.terminalNum = none) (hlive : s.live ≠ []) {esp : Nat}
    (hesp : OnKernelStack s.kernel esp) :
    Coherent { s with
      resumed := none
      halting := Function.update s.halting s.kernel.terminalNum
        (some { currentPcb := getCurrPcb esp
                parentPcb := (s.kernel.pcb (getCurrPcb esp)).parent
                pc := .entered
                stale := false }) } σ := by
  obtain ⟨p, rest, hchain, hp, hlink⟩ := h.running hlive
  have hmem := h.linked.mem_live s.kernel.terminalNum
  have hrecent := h.linked.recent s.kernel.terminalNum
  have hesp0 := h.current.esp0
  have hpage := h.current.page
  rw [hnone, hchain] at hrecent hesp0 hpage
  rw [hnone] at hmem
  have hcurr : getCurrPcb esp = pcbAddr p := by
    rw [hesp, hesp0 (List.cons_ne_nil p rest)]
    exact getCurrPcb_kernelStackTop hp
  have hframe : HaltOf (p :: rest)
      { currentPcb := getCurrPcb esp, parentPcb := (s.kernel.pcb (getCurrPcb esp)).parent
        pc := .entered, stale := false } := by
    refine ⟨List.cons_ne_nil p rest, hcurr, ?_, fun hr => nomatch hr⟩
    rw [hcurr]
    exact hlink.parent
  refine h.statement s.kernel s.live _ rfl (fun _ => .of_eq rfl) (fun _ _ => rfl) rfl ?_ hmem
    h.linked.nodup h.linked.bits ?_ ?_ ?_
  · rintro f ⟨⟩
    rw [hchain]
    exact hframe
  · rw [hchain]
    exact hrecent
  · rw [hchain]
    exact hesp0
  · rw [hchain]
    exact hpage

/-! ## The statements of `halt` -/

section Statements

variable {s : Sys} {σ : Stacks Tid Nat} {f : HaltFrame} {p : Nat} {rest : List Nat}

/-- The halting process and its chain. -/
theorem Coherent.halting_chain (h : Coherent s σ)
    (hf : s.halting s.kernel.terminalNum = some f) :
    ∃ p rest, σ.chain s.kernel.terminalNum = p :: rest ∧ p < 6 ∧ (∀ q ∈ rest, q < 6) ∧
      Link s.kernel.pcb s.kernel.terminalNum p rest ∧
      Chained s.kernel.pcb s.kernel.terminalNum rest ∧
      f.currentPcb = pcbAddr p ∧ f.parentPcb = topPcb rest ∧
      (f.pc.pidReleased = true → rest ≠ []) := by
  have hhalt := h.linked.halts _ f hf
  have hlinks := h.linked.chained s.kernel.terminalNum
  have hlt := h.linked.lt s.kernel.terminalNum
  cases hchain : σ.chain s.kernel.terminalNum with
  | nil => exact absurd hchain hhalt.nonempty
  | cons p rest =>
      rw [hchain] at hhalt hlinks hlt
      exact ⟨p, rest, rfl, hlt p (List.mem_cons_self ..),
        fun q hq => hlt q (List.mem_cons_of_mem p hq), hlinks.1, hlinks.2, hhalt.current,
        hhalt.parent, hhalt.child⟩

/-- A statement that changes no chain, no number in use and no PCB in a way that matters. -/
theorem Coherent.advance (h : Coherent s σ) (hf : s.halting s.kernel.terminalNum = some f)
    (k' : Kernel) (g : HaltFrame)
    (hcurrent : g.currentPcb = f.currentPcb) (hparent : g.parentPcb = f.parentPcb)
    (hreleased : g.pc.pidReleased = f.pc.pidReleased)
    (hnum : k'.terminalNum = s.kernel.terminalNum)
    (hbits : k'.pidBits = s.kernel.pidBits)
    (hpcb : ∀ addr, SameLink (s.kernel.pcb addr) (k'.pcb addr))
    (hterm : ∀ t, t ≠ s.kernel.terminalNum → k'.terminalArr t = s.kernel.terminalArr t)
    (hactive : (k'.terminalArr s.kernel.terminalNum).active =
      (s.kernel.terminalArr s.kernel.terminalNum).active)
    (hrecent : (k'.terminalArr s.kernel.terminalNum).mostRecentPcb =
      recentOf (σ.chain s.kernel.terminalNum) (some g))
    (hesp0 : k'.tssEsp0 = esp0Of k'.pcb (σ.chain s.kernel.terminalNum) (some g))
    (hpage : ∀ p, pageOf (σ.chain s.kernel.terminalNum) (some g) = some p →
      MapsProcess k'.paging p) :
    Coherent
      { kernel := k', live := s.live, resumed := none
        halting := Function.update s.halting s.kernel.terminalNum (some g) } σ := by
  have hhalt := h.linked.halts _ f hf
  have hmem := h.linked.mem_live s.kernel.terminalNum
  have hlive : liveOf (σ.chain s.kernel.terminalNum) (s.halting s.kernel.terminalNum) =
      liveOf (σ.chain s.kernel.terminalNum) (some g) := by
    rw [hf]
    simp only [liveOf, Option.any_some, hreleased]
  rw [hlive] at hmem
  refine h.statement k' s.live (some g) hnum hpcb hterm hactive ?_ hmem h.linked.nodup ?_ hrecent
    (fun _ => hesp0) hpage
  · rintro _ ⟨⟩
    exact ⟨hhalt.nonempty, hcurrent.trans hhalt.current, hparent.trans hhalt.parent,
      fun hr => hhalt.child (hreleased ▸ hr)⟩
  · rw [hbits]
    exact h.linked.bits

/-- `tss.esp0 = current_pcb->esp0`. -/
theorem Coherent.restoreEsp0 (h : Coherent s σ) (hf : s.halting s.kernel.terminalNum = some f)
    (hpc : f.pc = .entered) : Coherent (s.haltStatement f) σ := by
  obtain ⟨p, rest, hchain, -, -, -, -, hcurrent, -, -⟩ := h.halting_chain hf
  have hrecent := h.linked.recent s.kernel.terminalNum
  have hpage := h.current.page
  rw [hf] at hrecent hpage
  rw [Sys.haltStatement, hpc]
  refine h.advance hf _ { f with pc := .restored } rfl rfl (by rw [hpc]; rfl) rfl rfl
    (fun _ => .of_eq rfl) (fun _ _ => rfl) rfl ?_ ?_ ?_
  · rw [recentOf, Option.any_some, hpc] at hrecent
    exact hrecent
  · rw [hchain]
    show (s.kernel.pcb f.currentPcb).esp0 = (s.kernel.pcb (pcbAddr p)).esp0
    rw [hcurrent]
  · rw [pageOf, hpc] at hpage
    exact hpage

/-- A root shell is started again on its own stack. -/
theorem Coherent.leaveRoot (h : Coherent s σ) (hf : s.halting s.kernel.terminalNum = some f)
    (hpc : f.pc = .restored) (hparent : f.parentPcb = 0) : Coherent (s.haltStatement f) σ := by
  obtain ⟨p, rest, hchain, -, -, hlink, -, hcurrent, -, -⟩ := h.halting_chain hf
  have hrecent := h.linked.recent s.kernel.terminalNum
  have hpage := h.current.page
  have hmem := h.linked.mem_live s.kernel.terminalNum
  rw [hf] at hrecent hpage
  rw [hf, liveOf, Option.any_some, hpc] at hmem
  rw [recentOf, Option.any_some, hpc] at hrecent
  rw [pageOf, hpc] at hpage
  rw [Sys.haltStatement, hpc]
  simp only [hparent, if_true]
  refine h.statement _ s.live none rfl (fun _ => .of_eq rfl) (fun _ _ => rfl) rfl (nofun) hmem
    h.linked.nodup h.linked.bits hrecent (fun _ => ?_) hpage
  rw [hchain, hcurrent, hlink.pid]
  rfl

/-- `pid_bits[current_pcb->pid] = 0`: the process is no longer alive, but still on top of its
chain. -/
theorem Coherent.releasePid (h : Coherent s σ) (hf : s.halting s.kernel.terminalNum = some f)
    (hpc : f.pc = .restored) (hparent : f.parentPcb ≠ 0) : Coherent (s.haltStatement f) σ := by
  obtain ⟨p, rest, hchain, hp, -, hlink, -, hcurrent, hrest, -⟩ := h.halting_chain hf
  have hrecent := h.linked.recent s.kernel.terminalNum
  have hpage := h.current.page
  have hesp0 := h.current.esp0
  have hmem := h.linked.mem_live s.kernel.terminalNum
  have hnodup := h.linked.separate.nodup s.kernel.terminalNum
  rw [hf] at hrecent hpage hesp0
  rw [hf, liveOf, Option.any_some, hpc] at hmem
  rw [recentOf, Option.any_some, hpc] at hrecent
  rw [pageOf, hpc] at hpage
  rw [hchain] at hesp0
  rw [esp0Of, Option.any_some, hpc] at hesp0
  rw [hchain] at hnodup
  have hpid : (s.kernel.pcb f.currentPcb).pid = p := by rw [hcurrent, hlink.pid]
  -- The number is on no other chain, so it is nobody else's that is released.
  have hother : ∀ t, t ≠ s.kernel.terminalNum → p ∉ liveOf (σ.chain t) (s.halting t) :=
    fun t ht hmem => ht (h.linked.separate.eq_of_mem t _ p (liveOf_subset hmem)
      (hchain ▸ List.mem_cons_self ..))
  have herase : ∀ q, q ∈ s.live.erase p ↔ q ≠ p ∧ q ∈ s.live := fun q =>
    h.linked.nodup.mem_erase_iff
  -- A root shell leaves `halt` before this statement.
  have hchild : rest ≠ [] := by
    rintro rfl
    exact hparent hrest
  rw [Sys.haltStatement, hpc]
  simp only [if_neg hparent, hpid]
  refine h.statement (haltReleasePid f.currentPcb s.kernel) (s.live.erase p)
    (some { f with pc := .released }) rfl (fun _ => .of_eq rfl) (fun _ _ => rfl) rfl ?_ ?_
    (h.linked.nodup.erase p) ?_ hrecent (fun _ => ?_) hpage
  · rintro _ ⟨⟩
    have hhalt := h.linked.halts _ f hf
    refine ⟨hhalt.nonempty, hhalt.current, hhalt.parent, fun _ => ?_⟩
    rw [hchain]
    exact hchild
  · intro q
    rw [herase, hmem, hchain]
    constructor
    · rintro ⟨hne, hq | hq⟩
      · exact .inl ((List.mem_cons.mp hq).resolve_left hne)
      · exact .inr hq
    · rintro (hq | ⟨t, ht, hq⟩)
      · refine ⟨?_, .inl (List.mem_cons_of_mem p hq)⟩
        rintro rfl
        exact (List.nodup_cons.mp hnodup).1 hq
      · refine ⟨?_, .inr ⟨t, ht, hq⟩⟩
        rintro rfl
        exact hother t ht hq
  · intro q hq
    rw [herase]
    show Function.update s.kernel.pidBits (s.kernel.pcb f.currentPcb).pid 0 q = 1 ↔ _
    rw [hpid]
    rcases eq_or_ne q p with rfl | hne
    · simp
    · rw [Function.update_of_ne hne, h.linked.bits q hq]
      simp [hne]
  · rw [hchain]
    exact hesp0 (List.cons_ne_nil p rest)

/-- `free_process_memory(current_pcb->pid)`. -/
theorem Coherent.freeMemory (h : Coherent s σ) (hf : s.halting s.kernel.terminalNum = some f)
    (hpc : f.pc = .released) : Coherent (s.haltStatement f) σ := by
  have hrecent := h.linked.recent s.kernel.terminalNum
  have hesp0 := h.current.esp0 (h.linked.halts _ f hf).nonempty
  rw [hf, recentOf, Option.any_some, hpc] at hrecent
  rw [hf, esp0Of, Option.any_some, hpc] at hesp0
  rw [Sys.haltStatement, hpc]
  exact h.advance hf _ { f with pc := .freed } rfl rfl (by rw [hpc]; rfl) rfl rfl
    (fun _ => .of_eq rfl) (fun _ _ => rfl) rfl hrecent hesp0 (nofun)

/-- `set_process_memory(parent_pcb->pid)`. -/
theorem Coherent.mapParent (h : Coherent s σ) (hf : s.halting s.kernel.terminalNum = some f)
    (hpc : f.pc = .freed) : Coherent (s.haltStatement f) σ := by
  obtain ⟨p, rest, hchain, -, -, -, hrest, -, hparent, -⟩ := h.halting_chain hf
  have hrecent := h.linked.recent s.kernel.terminalNum
  have hesp0 := h.current.esp0 (h.linked.halts _ f hf).nonempty
  rw [hf, recentOf, Option.any_some, hpc] at hrecent
  rw [hf, esp0Of, Option.any_some, hpc] at hesp0
  rw [Sys.haltStatement, hpc]
  refine h.advance hf _ { f with stale := false, pc := .mapped } rfl rfl (by rw [hpc]; rfl) rfl rfl
    (fun _ => .of_eq rfl) (fun _ _ => rfl) rfl hrecent hesp0 fun q hq => ?_
  rw [hchain] at hq
  cases rest with
  | nil => cases hq
  | cons r rest =>
      have hr : r = q := Option.some.inj hq
      subst hr
      have hpid : (s.kernel.pcb f.parentPcb).pid = r := by
        rw [hparent]
        exact hrest.1.pid
      show MapsProcess (setProcessMemory (s.kernel.pcb f.parentPcb).pid s.kernel.paging) r
      rw [hpid]
      exact mapsProcess_setProcessMemory r _

/-- `terminal_arr[terminal_num].most_recent_pcb = parent_pcb`. -/
theorem Coherent.setRecent (h : Coherent s σ) (hf : s.halting s.kernel.terminalNum = some f)
    (hpc : f.pc = .mapped) : Coherent (s.haltStatement f) σ := by
  obtain ⟨p, rest, hchain, -, -, -, -, -, hparent, -⟩ := h.halting_chain hf
  have hesp0 := h.current.esp0 (h.linked.halts _ f hf).nonempty
  have hpage := h.current.page
  rw [hf, esp0Of, Option.any_some, hpc] at hesp0
  rw [hf, pageOf, hpc] at hpage
  rw [Sys.haltStatement, hpc]
  refine h.advance hf _ { f with pc := .recorded } rfl rfl (by rw [hpc]; rfl) rfl rfl
    (fun _ => .of_eq rfl) (fun t ht => Kernel.setTerminal_of_ne _ _ ht) ?_ ?_ hesp0 hpage
  · rw [haltSetRecent, Kernel.setTerminal_self]
  · rw [haltSetRecent, Kernel.setTerminal_self, hchain]
    exact hparent

/-- Step 3 of `halt`. -/
theorem Coherent.closeFds (h : Coherent s σ) (hf : s.halting s.kernel.terminalNum = some f)
    (hpc : f.pc = .recorded) : Coherent (s.haltStatement f) σ := by
  have hrecent := h.linked.recent s.kernel.terminalNum
  have hesp0 := h.current.esp0 (h.linked.halts _ f hf).nonempty
  have hpage := h.current.page
  rw [hf, recentOf, Option.any_some, hpc] at hrecent
  rw [hf, esp0Of, Option.any_some, hpc] at hesp0
  rw [hf, pageOf, hpc] at hpage
  have hsame : ∀ addr, SameLink (s.kernel.pcb addr)
      ((haltCloseFds f.currentPcb s.kernel).pcb addr) := by
    intro addr
    rcases eq_or_ne addr f.currentPcb with rfl | hne
    · rw [haltCloseFds, Kernel.setPcb_self]
      exact ⟨rfl, rfl, rfl, rfl, rfl⟩
    · exact .of_eq (Kernel.setPcb_of_ne _ _ hne)
  rw [Sys.haltStatement, hpc]
  refine h.advance hf _ { f with pc := .closed } rfl rfl (by rw [hpc]; rfl) rfl rfl hsame
    (fun _ _ => rfl) rfl hrecent ?_ hpage
  rw [esp0Of, Option.any_some]
  exact hesp0.trans (hsame _).esp0.symm

/-- The process table when the process on top of a chain is gone: its number was released and
`most_recent_pcb` set before. -/
theorem Linked.pop {k : Kernel} {live : List Nat} {halting : Tid → Option HaltFrame}
    {σ : Stacks Tid Nat} (h : Linked k live halting σ) {f : HaltFrame}
    (hf : halting σ.current = some f) (hreleased : f.pc.pidReleased = true)
    (hrecentSet : f.pc.recentSet = true) :
    Linked k live (Function.update halting σ.current none) σ.pop := by
  have hother : ∀ t, t ≠ σ.current → σ.pop.chain t = σ.chain t := fun t ht =>
    Stacks.pop_chain_of_ne σ ht
  have hmem := h.mem_live σ.current
  have hrecent := h.recent σ.current
  have hchained := h.chained σ.current
  have hactive := h.active σ.current
  -- A number is only released when there is a parent to go back to.
  have htail := (h.halts _ f hf).child hreleased
  rw [hf, liveOf, Option.any_some, hreleased, if_pos rfl] at hmem
  rw [hf, recentOf, Option.any_some, hrecentSet, if_pos rfl] at hrecent
  constructor
  case separate => exact h.separate.pop
  case lt => exact fun t r hr => h.lt t r (Stacks.mem_pop hr)
  case nodup => exact h.nodup
  case bits => exact h.bits
  case alive =>
    intro r
    rw [hmem]
    constructor
    · rintro (hr | ⟨t, ht, hr⟩)
      · refine ⟨σ.current, ?_⟩
        rw [Function.update_self, Stacks.pop_chain_self]
        exact hr
      · exact ⟨t, by rwa [Function.update_of_ne ht, hother t ht]⟩
    · rintro ⟨t, hr⟩
      rcases eq_or_ne t σ.current with rfl | ht
      · rw [Function.update_self, Stacks.pop_chain_self] at hr
        exact .inl hr
      · rw [Function.update_of_ne ht, hother t ht] at hr
        exact .inr ⟨t, ht, hr⟩
  case active =>
    intro t
    rcases eq_or_ne t σ.current with rfl | ht
    · rw [Stacks.pop_chain_self, hactive]
      exact ⟨fun _ => htail, fun _ hnil => by simp [hnil] at htail⟩
    · rw [hother t ht]
      exact h.active t
  case chained =>
    intro t
    rcases eq_or_ne t σ.current with rfl | ht
    · rw [Stacks.pop_chain_self]
      exact hchained.tail
    · rw [hother t ht]
      exact h.chained t
  case halts =>
    intro t g hg
    rcases eq_or_ne t σ.current with rfl | ht
    · rw [Function.update_self] at hg
      cases hg
    · rw [Function.update_of_ne ht] at hg
      rw [hother t ht]
      exact h.halts t g hg
  case recent =>
    intro t
    rcases eq_or_ne t σ.current with rfl | ht
    · rw [Function.update_self, Stacks.pop_chain_self]
      exact hrecent
    · rw [Function.update_of_ne ht, hother t ht]
      exact h.recent t

/-- **Control reaches the parent**: the chain loses its top, and what the halting process has
restored is what its caller needs. -/
theorem Coherent.jump (h : Coherent s σ) (hf : s.halting s.kernel.terminalNum = some f)
    (hpc : f.pc = .closed) (hstale : f.stale = false) :
    Coherent (s.haltStatement f) σ.pop := by
  obtain ⟨p, rest, hchain, -, -, hlink, -, -, hparent, hchild⟩ := h.halting_chain hf
  have hesp0 := h.current.esp0 (h.linked.halts _ f hf).nonempty
  have hpage := h.current.page
  have hlinked := h.linked.pop ((congrArg s.halting h.current.scheduled).trans hf)
    (by rw [hpc]; rfl) (by rw [hpc]; rfl)
  rw [hf, hchain, esp0Of, Option.any_some, hpc] at hesp0
  rw [hf, hchain] at hpage
  simp only [pageOf, hpc, hstale, Bool.false_eq_true, if_false, List.tail_cons] at hpage
  obtain ⟨q, below, rfl⟩ := List.exists_cons_of_ne_nil (hchild (by rw [hpc]; rfl))
  -- the chain of the scheduled terminal is now that of the parent
  have hself : σ.pop.chain s.kernel.terminalNum = q :: below := by
    rw [← h.current.scheduled, Stacks.pop_chain_self, h.current.scheduled, hchain]
    rfl
  rw [h.current.scheduled] at hlinked
  rw [Sys.haltStatement, hpc]
  dsimp only [Sys.leaveHalt]
  constructor
  case linked => exact hlinked
  case current =>
    dsimp only
    constructor
    case scheduled => exact h.current.scheduled
    case idle =>
      intro hnil
      rw [hself] at hnil
      cases hnil
    case esp0 =>
      intro _
      rw [Function.update_self, hself, hesp0]
      exact hlink.esp0 q rfl
    case page =>
      rw [Function.update_self, hself]
      exact hpage
  case saved =>
    intro t ht
    exact (h.saved t ht).congr rfl (Function.update_of_ne ht ..)
      (Stacks.pop_chain_of_ne σ (h.current.scheduled ▸ ht)) rfl
  case resumed =>
    rintro _ ⟨⟩
    exact ⟨Function.update_self .., q, by rw [hself]; rfl, hparent⟩

end Statements

/-! ## A new process -/

/-- The PCB of a new process continues the chain of the scheduled terminal: the chain is empty,
or its top is the process on whose stack `execute` runs. -/
theorem Linked.new_link {k k' : Kernel} {live : List Nat} {halting : Tid → Option HaltFrame}
    {σ : Stacks Tid Nat} {esp ebp p : Nat} (h : Linked k live halting σ) (hp : p < 6)
    (hfresh : ∀ t, p ∉ σ.chain t)
    (hcaller : ∀ q, (σ.chain k.terminalNum).head? = some q →
      getCurrPcb esp = pcbAddr q ∧ getCurrPcb ebp = pcbAddr q ∧ k.tssEsp0 = kernelStackTop q)
    (hstarted : Started k esp ebp p k') :
    Link k'.pcb k.terminalNum p (σ.chain k.terminalNum) := by
  have hactive := h.active k.terminalNum
  have hchained := h.chained k.terminalNum
  cases hchain : σ.chain k.terminalNum with
  | nil =>
      have hoff : (k.terminalArr k.terminalNum).active = false := by
        rw [Bool.eq_false_iff, ne_eq, hactive, hchain]
        simp
      obtain ⟨hparent, htid⟩ := hstarted.root hoff
      exact ⟨hstarted.pid, htid, hparent, nofun, nofun⟩
  | cons q rest =>
      rw [hchain] at hcaller hactive hchained
      obtain ⟨hesp, hebp, htss⟩ := hcaller q rfl
      have hq : q ∈ σ.chain k.terminalNum := hchain ▸ List.mem_cons_self ..
      -- The caller's block is on the chain, the new one is not.
      have hne : getCurrPcb esp ≠ pcbAddr p := by
        rw [hesp]
        intro heq
        rw [pcbAddr_inj (h.lt _ q hq) hp heq] at hq
        exact hfresh _ hq
      obtain ⟨hparent, htid⟩ := hstarted.child (hactive.mpr (List.cons_ne_nil q rest)) hne
      refine ⟨hstarted.pid, ?_, hparent.trans hesp, ?_, ?_⟩
      · rw [htid, hesp, hchained.1.tid]
      · rintro _ ⟨⟩
        exact hstarted.esp0.trans htss
      · rintro _ ⟨⟩
        rw [hstarted.ebp, hebp]

/-- The process table with a new process on top of the chain of the scheduled terminal. -/
theorem Linked.push {k k' : Kernel} {live : List Nat} {halting : Tid → Option HaltFrame}
    {σ : Stacks Tid Nat} {esp ebp p : Nat} (h : Linked k live halting σ)
    (hscheduled : σ.current = k.terminalNum) (hnone : halting k.terminalNum = none) (hp : p < 6)
    (hfresh : ∀ t, p ∉ σ.chain t)
    (hlink : Link k'.pcb k.terminalNum p (σ.chain k.terminalNum))
    (hstarted : Started k esp ebp p k') : Linked k' (p :: live) halting (σ.push p) := by
  have hself : (σ.push p).chain k.terminalNum = p :: σ.chain k.terminalNum := by
    rw [← hscheduled, Stacks.push_chain_self]
  have hother : ∀ t, t ≠ k.terminalNum → (σ.push p).chain t = σ.chain t := fun t ht =>
    Stacks.push_chain_of_ne σ p (hscheduled ▸ ht)
  -- The PCB of the new process is none of the chains' blocks, so their links stay.
  have hpcb : ∀ t, ∀ q ∈ σ.chain t, k'.pcb (pcbAddr q) = k.pcb (pcbAddr q) := by
    intro t q hq
    refine hstarted.pcb_of_ne _ fun heq => ?_
    rw [pcbAddr_inj (h.lt t q hq) hp heq] at hq
    exact hfresh t hq
  have hterm : ∀ t, t ≠ k.terminalNum → k'.terminalArr t = k.terminalArr t := by
    intro t ht
    rw [hstarted.terminalArr, Function.update_of_ne ht]
  have hnew : p ∉ live := by
    rw [h.alive]
    rintro ⟨t, ht⟩
    exact hfresh t (liveOf_subset ht)
  constructor
  case separate => exact h.separate.push hfresh
  case lt =>
    intro t q hq
    rcases Stacks.mem_push hq with ⟨-, rfl⟩ | hold
    · exact hp
    · exact h.lt t q hold
  case nodup => exact List.nodup_cons.mpr ⟨hnew, h.nodup⟩
  case bits =>
    intro q hq
    rw [hstarted.pidBits, List.mem_cons]
    rcases eq_or_ne q p with rfl | hne
    · simp
    · rw [Function.update_of_ne hne, h.bits q hq]
      exact ⟨.inr, fun hmem => hmem.resolve_left hne⟩
  -- No terminal that halts gains a process: the scheduled one does not halt.
  case alive =>
    intro q
    rw [List.mem_cons, h.mem_live k.terminalNum, hnone]
    constructor
    · rintro (rfl | hq | ⟨t, ht, hq⟩)
      · refine ⟨k.terminalNum, ?_⟩
        rw [hnone, hself]
        exact List.mem_cons_self ..
      · refine ⟨k.terminalNum, ?_⟩
        rw [hnone, hself]
        exact List.mem_cons_of_mem p hq
      · exact ⟨t, by rwa [hother t ht]⟩
    · rintro ⟨t, hq⟩
      rcases eq_or_ne t k.terminalNum with rfl | ht
      · rw [hnone, hself] at hq
        exact (List.mem_cons.mp hq).imp_right .inl
      · rw [hother t ht] at hq
        exact .inr (.inr ⟨t, ht, hq⟩)
  case active =>
    intro t
    rcases eq_or_ne t k.terminalNum with rfl | ht
    · rw [hstarted.terminalArr, Function.update_self, hself]
      exact ⟨fun _ => List.cons_ne_nil _ _, fun _ => rfl⟩
    · rw [hterm t ht, hother t ht]
      exact h.active t
  case chained =>
    intro t
    have hold := (h.chained t).congr fun q hq => SameLink.of_eq (hpcb t q hq)
    rcases eq_or_ne t k.terminalNum with rfl | ht
    · rw [hself]
      exact ⟨hlink, hold⟩
    · rw [hother t ht]
      exact hold
  case halts =>
    intro t f hf
    rcases eq_or_ne t k.terminalNum with rfl | ht
    · rw [hnone] at hf
      cases hf
    · rw [hother t ht]
      exact h.halts t f hf
  case recent =>
    intro t
    rcases eq_or_ne t k.terminalNum with rfl | ht
    · rw [hstarted.terminalArr, Function.update_self, hself, hnone, recentOf_none, topPcb_cons]
    · rw [hterm t ht, hother t ht]
      exact h.recent t

/-- **Starting a process** on the scheduled terminal. -/
theorem Linked.start {k k' : Kernel} {live : List Nat} {halting : Tid → Option HaltFrame}
    {σ : Stacks Tid Nat} {esp ebp p : Nat} (h : Linked k live halting σ)
    (hscheduled : σ.current = k.terminalNum)
    (hsaved : ∀ t, t ≠ k.terminalNum → Saved k halting σ t)
    (hnone : halting k.terminalNum = none) (hp : p < 6) (hfresh : ∀ t, p ∉ σ.chain t)
    (hcaller : ∀ q, (σ.chain k.terminalNum).head? = some q →
      getCurrPcb esp = pcbAddr q ∧ getCurrPcb ebp = pcbAddr q ∧ k.tssEsp0 = kernelStackTop q)
    (hstarted : Started k esp ebp p k') :
    Coherent { kernel := k', live := p :: live, halting := halting, resumed := none }
      (σ.push p) := by
  have hlink := h.new_link hp hfresh hcaller hstarted
  have hself : (σ.push p).chain k.terminalNum = p :: σ.chain k.terminalNum := by
    rw [← hscheduled, Stacks.push_chain_self]
  have hother : ∀ t, t ≠ k.terminalNum → (σ.push p).chain t = σ.chain t := fun t ht =>
    Stacks.push_chain_of_ne σ p (hscheduled ▸ ht)
  constructor
  case linked => exact h.push hscheduled hnone hp hfresh hlink hstarted
  case current =>
    dsimp only
    constructor
    case scheduled => exact hscheduled.trans hstarted.terminalNum.symm
    case idle =>
      rw [hstarted.terminalNum, hself]
      exact fun hnil => absurd hnil (List.cons_ne_nil _ _)
    case esp0 =>
      rw [hstarted.terminalNum, hself, hnone, hstarted.tssEsp0, esp0Of_none]
      exact fun _ => rfl
    case page =>
      rw [hstarted.terminalNum, hself, hnone, hstarted.paging]
      rintro _ ⟨⟩
      exact mapsProcess_setProcessMemory p _
  case saved =>
    intro t ht
    dsimp only at ht
    rw [hstarted.terminalNum] at ht
    refine (hsaved t ht).congr ?_ rfl (hother t ht) ?_
    · rw [hstarted.terminalArr, Function.update_of_ne ht]
    · cases hchain : σ.chain t with
      | nil => exact congrArg Pcb.esp0 (hstarted.pcb_of_ne _ (pcbAddr_ne_zero hp).symm)
      | cons q rest =>
          have hq : q ∈ σ.chain t := hchain ▸ List.mem_cons_self ..
          refine congrArg Pcb.esp0 (hstarted.pcb_of_ne _ fun heq => ?_)
          rw [pcbAddr_inj (h.lt t q hq) hp heq] at hq
          exact hfresh t hq
  case resumed => exact fun _ hr => nomatch hr

/-! ## A timer tick -/

section Tick

variable {s : Sys} {σ : Stacks Tid Nat}

/-- A tick does not change how far a call of `halt` has come. -/
theorem HaltFrame.preempted_eq (f : HaltFrame) :
    f.preempted.pc = f.pc ∧ f.preempted.currentPcb = f.currentPcb ∧
      f.preempted.parentPcb = f.parentPcb := by
  unfold HaltFrame.preempted
  split <;> exact ⟨rfl, rfl, rfl⟩

theorem Sys.preempt_any (s : Sys) (t : Tid) (P : HaltPc → Bool) :
    (s.preempt t).any (fun f => P f.pc) = (s.halting t).any fun f => P f.pc := by
  unfold Sys.preempt
  rcases eq_or_ne t s.kernel.terminalNum with rfl | ht
  · rw [Function.update_self]
    cases s.halting s.kernel.terminalNum with
    | none => rfl
    | some f => rw [Option.map_some, Option.any_some, Option.any_some, f.preempted_eq.1]
  · rw [Function.update_of_ne ht]

@[simp] theorem liveOf_preempt (c : List Nat) (t : Tid) :
    liveOf c (s.preempt t) = liveOf c (s.halting t) := by
  rw [liveOf, s.preempt_any, liveOf]

@[simp] theorem recentOf_preempt (c : List Nat) (t : Tid) :
    recentOf c (s.preempt t) = recentOf c (s.halting t) := by
  rw [recentOf, s.preempt_any, recentOf]

@[simp] theorem esp0Of_preempt (pcb : Nat → Pcb) (c : List Nat) (t : Tid) :
    esp0Of pcb c (s.preempt t) = esp0Of pcb c (s.halting t) := by
  rw [esp0Of, s.preempt_any, esp0Of]

theorem HaltOf.preempted {c : List Nat} {f : HaltFrame} (h : HaltOf c f) :
    HaltOf c f.preempted := by
  obtain ⟨hpc, hcurrent, hparent⟩ := f.preempted_eq
  exact ⟨h.nonempty, hcurrent.trans h.current, hparent.trans h.parent, fun hr =>
    h.child (hpc ▸ hr)⟩

theorem Sys.preempt_of_ne (s : Sys) {t : Tid} (ht : t ≠ s.kernel.terminalNum) :
    s.preempt t = s.halting t :=
  Function.update_of_ne ht ..

/-- The page that a tick would come back to, where it is certain. -/
theorem recentOf_of_pageOf_preempted {c : List Nat} {halting : Option HaltFrame} {p : Nat}
    (h : pageOf c (halting.map HaltFrame.preempted) = some p) :
    recentOf c (halting.map HaltFrame.preempted) = pcbAddr p := by
  have htop : ∀ c : List Nat, c.head? = some p → topPcb c = pcbAddr p := by
    intro c hc
    cases c with
    | nil => cases hc
    | cons q rest =>
        cases hc
        exact topPcb_cons ..
  cases halting with
  | none => exact (recentOf_none c).trans (htop c h)
  | some f =>
      obtain ⟨_, _, pc, _⟩ := f
      rw [recentOf, Option.map_some, Option.any_some]
      cases pc
      case entered => exact htop c h
      case restored => exact htop c h
      case released => exact htop c h
      case freed => cases h
      case mapped => cases h
      case recorded => exact htop c.tail h
      case closed => exact htop c.tail h

theorem leaveTerminal_terminalNum (ebp : Nat) (k : Kernel) :
    (leaveTerminal ebp k).terminalNum = k.terminalNum + 1 := rfl

theorem leaveTerminal_self (ebp : Nat) (k : Kernel) :
    (leaveTerminal ebp k).terminalArr k.terminalNum =
      { k.terminalArr k.terminalNum with ebp := ebp, esp0 := k.tssEsp0 } := by
  simp [leaveTerminal, Kernel.setTerminal]

theorem leaveTerminal_of_ne (ebp : Nat) (k : Kernel) {t : Tid} (ht : t ≠ k.terminalNum) :
    (leaveTerminal ebp k).terminalArr t = k.terminalArr t := by
  simp [leaveTerminal, Kernel.setTerminal, ht]

/-- **Leaving a terminal**: from here on no terminal is scheduled, and what every one of them
needs to be resumed is saved. -/
theorem Coherent.leave (h : Coherent s σ) (ebp : Nat) :
    Linked (leaveTerminal ebp s.kernel) s.live s.preempt
        (σ.switch (s.kernel.terminalNum + 1)) ∧
      ∀ t, Saved (leaveTerminal ebp s.kernel) s.preempt
        (σ.switch (s.kernel.terminalNum + 1)) t := by
  -- Only `ebp` and `esp0` of the terminal that is left are assigned to.
  have hterm : ∀ t, ((leaveTerminal ebp s.kernel).terminalArr t).active =
        (s.kernel.terminalArr t).active ∧
      ((leaveTerminal ebp s.kernel).terminalArr t).mostRecentPcb =
        (s.kernel.terminalArr t).mostRecentPcb := by
    intro t
    rcases eq_or_ne t s.kernel.terminalNum with rfl | ht
    · rw [leaveTerminal_self]
      exact ⟨rfl, rfl⟩
    · rw [leaveTerminal_of_ne ebp s.kernel ht]
      exact ⟨rfl, rfl⟩
  constructor
  · constructor
    case separate => exact ⟨h.linked.separate.nodup, h.linked.separate.eq_of_mem⟩
    case lt => exact h.linked.lt
    case alive =>
      simp only [liveOf_preempt]
      exact h.linked.alive
    case nodup => exact h.linked.nodup
    case bits => exact h.linked.bits
    case active =>
      intro t
      rw [(hterm t).1]
      exact h.linked.active t
    case chained => exact h.linked.chained
    case halts =>
      intro t f hf
      rcases eq_or_ne t s.kernel.terminalNum with rfl | ht
      · rw [Sys.preempt, Function.update_self, Option.map_eq_some_iff] at hf
        obtain ⟨g, hg, rfl⟩ := hf
        exact (h.linked.halts _ g hg).preempted
      · rw [s.preempt_of_ne ht] at hf
        exact h.linked.halts t f hf
    case recent =>
      intro t
      rw [(hterm t).2, recentOf_preempt]
      exact h.linked.recent t
  · intro t
    rcases eq_or_ne t s.kernel.terminalNum with rfl | ht
    · refine ⟨fun hne => ?_, fun p hp => ?_⟩
      · rw [leaveTerminal_self, esp0Of_preempt]
        exact h.current.esp0 hne
      · rw [Sys.preempt, Function.update_self] at hp ⊢
        exact recentOf_of_pageOf_preempted hp
    · exact (h.saved t ht).congr (leaveTerminal_of_ne ebp s.kernel ht) (s.preempt_of_ne ht) rfl rfl

/-- **Resuming a terminal**: its page and its stack are those that were saved. -/
theorem Coherent.resume {k k' : Kernel} {live : List Nat} {halting : Tid → Option HaltFrame}
    {ebp : Nat} (h : Linked k live halting σ) (hsaved : ∀ t, Saved k halting σ t)
    (hscheduled : σ.current = k.terminalNum) (hchain : σ.chain k.terminalNum ≠ [])
    (hresume : resumeTerminal k.terminalNum k = .frame k' ebp) :
    Coherent { kernel := k', live := live, halting := halting, resumed := none } σ := by
  unfold resumeTerminal at hresume
  rw [h.recent] at hresume
  split at hresume
  · cases hresume
  cases hresume
  constructor
  case linked =>
    exact ⟨h.separate, h.lt, h.alive, h.nodup, h.bits, h.active, h.chained, h.halts, h.recent⟩
  case current =>
    dsimp only
    constructor
    case scheduled => exact hscheduled
    case idle => exact fun hnil => absurd hnil hchain
    case esp0 => exact (hsaved k.terminalNum).esp0
    case page =>
      intro p hp
      rw [(hsaved k.terminalNum).page p hp, (h.chained k.terminalNum).pid (mem_of_pageOf hp)]
      exact mapsProcess_setProcessMemory p _
  case saved => exact fun t _ => ⟨(hsaved t).esp0, (hsaved t).page⟩
  case resumed => exact fun _ hr => nomatch hr

end Tick

end JuddOS
