import JuddOS.Computer
import JuddOS.RoundRobin

/-!
# Every process has a processor

What the kernel makes of its processor: in `Virtual`, every process has registers of its own, which
stay as they are while it does not run.  An interrupt changes no registers at all, `execute` starts
a processor, and `halt` stops one and gives the low byte of its EBX to the caller in EAX.

Every run of the computer is a run of this machine.  `Represents` relates their states: the
registers of a process that does not run are on its kernel stack, in the frame that its terminal,
or the PCB of its child, points to (`Suspended`).
-/

namespace JuddOS

open Support X86 X86.Asm

/-- The system, with the registers of every process. -/
structure Virtual where
  os : Os
  contexts : Nat → Context

namespace Virtual

def pid (v : Virtual) : Nat := v.os.proc.kernel.runningPid

/-- One step. -/
inductive Step (fs : Image) (v : Virtual) : Option OsEvent → Virtual → Prop
  /-- The process goes on without the kernel. -/
  | computes (x : Context) :
      Step fs v none { v with contexts := Function.update v.contexts v.pid x }
  /-- A call that comes back to the process. -/
  | continues {e : OsEvent} {o : Os} (hstep : v.os.step fs e = some o) (hirq : e.isIrq = false)
      (hruns : o.proc.kernel.runningPid = v.pid) (x : Context) :
      Step fs v (some e) ⟨o, Function.update v.contexts v.pid x⟩
  /-- An interrupt, after which this process or another one goes on. -/
  | interrupt {e : OsEvent} {o : Os} (hstep : v.os.step fs e = some o) (hirq : e.isIrq = true)
      (hlive : o.proc.live = v.os.proc.live) : Step fs v (some e) ⟨o, v.contexts⟩
  /-- A new process. -/
  | starts {e : OsEvent} {o : Os} {x : Context} (hstep : v.os.step fs e = some o)
      (hnew : o.proc.kernel.runningPid ∉ v.os.proc.live) (hx : StartsUser o.proc.kernel x) :
      Step fs v (some e) ⟨o, Function.update v.contexts o.proc.kernel.runningPid x⟩
  /-- The process ends, and its caller goes on. -/
  | returns {e : OsEvent} {o : Os} {status : UInt8} (hstep : v.os.step fs e = some o)
      (hend : v.pid ∉ o.proc.live) (hstatus : e.Status (v.contexts v.pid) status) :
      Step fs v (some e) ⟨o, Function.update v.contexts o.proc.kernel.runningPid
        ((v.contexts o.proc.kernel.runningPid).answer (status.toBitVec.setWidth 32))⟩

/-- The runs, with the registers of the process that runs after each step. -/
abbrev Steps (fs : Image) : Virtual → List (Option OsEvent × Context) → Virtual → Prop :=
  Run fun v l v' => v.Step fs l.1 v' ∧ v'.contexts v'.pid = l.2

end Virtual

/-! ## Processes that do not run -/

/-- The registers of a process that does not run are in a frame on its kernel stack. -/
inductive Suspended (code : ReturnAddresses) (o : Os) (mem : Memory) (p : Nat) (x : Context) : Prop
  /-- The timer took the processor from it. -/
  | preempted {t : Tid} (ht : t ≠ o.proc.kernel.terminalNum)
      (hactive : (o.proc.kernel.terminalArr t).active = true)
      (hrecent : (o.proc.kernel.terminalArr t).mostRecentPcb = pcbAddr p)
      (hframe : ∃ base, PitFrame (stackBottom p) code.irqPit code.irqPitHandler mem
        (BitVec.ofNat 32 (o.proc.kernel.terminalArr t).ebp) base x)
  /-- It waits for a process that it started. -/
  | calling {q : Nat} (hq : q ∈ o.proc.live)
      (hparent : (o.proc.kernel.pcb (pcbAddr q)).parent = pcbAddr p)
      (hframe : ExecuteFrame (stackBottom p) code.systemCall mem
        (BitVec.ofNat 32 (o.proc.kernel.pcb (pcbAddr q)).ebp) x)

section Suspended

variable {code : ReturnAddresses} {fs : Image} {o o' : Os} {mem mem' : Memory} {p : Nat}
  {x : Context} {e : OsEvent}

/-- **A process that does not run before an event nor after it** stays suspended. -/
theorem Suspended.step (h : Suspended code o mem p x) (hready : OsReady fs o)
    (hstep : o.step fs e = some o') (hp : p ∈ o.proc.live) (hidle : p ≠ o.proc.kernel.runningPid)
    (hidle' : p ≠ o'.proc.kernel.runningPid)
    (hmem : ∀ a, height (stackBottom p) a < 0x2000 → mem' a = mem a) :
    Suspended code o' mem' p x := by
  have hready' := hready.step hstep
  have hp' := (hready.idle hstep hp hidle).live
  have hrunning' := hready'.tidy.running (List.ne_nil_of_mem hp')
  have hlt := hready.tidy.lt hp
  have hlt' := hready'.tidy.lt hrunning'.mem
  cases h with
  | @preempted t ht hactive hrecent hframe =>
      obtain ⟨base, hframe⟩ := hframe
      have hslot := hready.slots hstep ht.symm hactive
      have hrecent' := (congrArg Slot.mostRecentPcb hslot).trans hrecent
      refine .preempted (t := t) ?_ ((congrArg Slot.active hslot).trans hactive)
        hrecent' ?_
      · rintro rfl
        exact hidle' (pcbAddr_inj hlt hlt' (hrecent'.symm.trans hrunning'.recent))
      · have hebp : (o'.proc.kernel.terminalArr t).ebp = (o.proc.kernel.terminalArr t).ebp :=
          congrArg Slot.ebp hslot
        rw [hebp]
        exact ⟨base, hframe.congr hmem⟩
  | @calling q hq hparent hframe =>
      by_cases hq' : q ∈ o'.proc.live
      · obtain ⟨es, hrun, hbrief, -⟩ := Os.step_kernelSteps hstep
        have hlink := hready.tidy.sameLink_of_brief hrun hbrief hq hq'
        refine .calling hq' (hlink.parent.trans hparent) ?_
        rw [hlink.ebp]
        exact hframe.congr hmem
      · -- the child ends, and then its caller runs
        obtain ⟨-, hcaller⟩ := hready.ends hstep hq hq'
        exact absurd (pcbAddr_inj hlt hlt' (hparent.symm.trans hcaller)) hidle'

/-- The terminal on top of whose chain a process is. -/
theorem Chains.tid_of_recent {s : ProcState} {σ : Stacks Tid Nat} (h : Chains s σ) {t : Tid}
    (hp : p ∈ s.live) (hrecent : (s.kernel.terminalArr t).mostRecentPcb = pcbAddr p) :
    (∃ rest, σ.chain t = p :: rest) ∧ (s.kernel.pcb (pcbAddr p)).tid = t := by
  have htop := h.linked.recent t
  rw [recentOf_none, hrecent] at htop
  have hlt := h.lt hp
  cases hchain : σ.chain t with
  | nil =>
      rw [hchain] at htop
      exact absurd htop (pcbAddr_ne_zero hlt)
  | cons q rest =>
      have hq : q ∈ σ.chain t := hchain ▸ List.mem_cons_self ..
      rw [hchain, topPcb_cons] at htop
      obtain rfl := pcbAddr_inj hlt (h.linked.lt t q hq) htop
      exact ⟨⟨rest, rfl⟩, (h.mem_chain_iff hp t).mp hq⟩

/-- **The process that a tick goes on with** was taken the processor from by the timer. -/
theorem Suspended.frame_of_tick (h : Suspended code o mem p x) (hready : OsReady fs o)
    (hready' : OsReady fs o') (hp : p ∈ o.proc.live) (hlive : o'.proc.live = o.proc.live)
    (hpcb : o'.proc.kernel.pcb = o.proc.kernel.pcb) (hruns : o'.proc.kernel.runningPid = p)
    (hrecent : (o.proc.kernel.terminalArr o'.proc.kernel.terminalNum).mostRecentPcb = pcbAddr p) :
    ∃ base, PitFrame (stackBottom p) code.irqPit code.irqPitHandler mem
      (BitVec.ofNat 32 (o.proc.kernel.terminalArr o'.proc.kernel.terminalNum).ebp) base x := by
  obtain ⟨σ, hchains⟩ := hready.tidy.ready.chains
  obtain ⟨σ', hchains'⟩ := hready'.tidy.ready.chains
  cases h with
  | @preempted t _ _ hrecent' hframe =>
      obtain rfl : t = o'.proc.kernel.terminalNum :=
        (hchains.tid_of_recent hp hrecent').2.symm.trans (hchains.tid_of_recent hp hrecent).2
      exact hframe
  | @calling q hq hparent =>
      -- a caller does not run
      refine absurd hruns.symm (hchains'.caller_waits (hlive ▸ hq) (hready.tidy.lt hp) ?_)
      rw [hpcb]
      exact hparent

/-- The caller of the process that runs waits in `execute`. -/
theorem Suspended.frame_of_return (h : Suspended code o mem p x) (hready : OsReady fs o)
    (hp : p ∈ o.proc.live)
    (hparent : (o.proc.kernel.pcb (pcbAddr o.proc.kernel.runningPid)).parent = pcbAddr p) :
    ExecuteFrame (stackBottom p) code.systemCall mem
      (BitVec.ofNat 32 (o.proc.kernel.pcb (pcbAddr o.proc.kernel.runningPid)).ebp) x := by
  obtain ⟨σ, hchains⟩ := hready.tidy.ready.chains
  have hrunning := hready.tidy.running (List.ne_nil_of_mem hp)
  have hlt := hready.tidy.lt hp
  obtain ⟨t, below, hbelow⟩ := hchains.caller_below hrunning.mem hlt hparent
  cases h with
  | @preempted u _ _ hrecent =>
      obtain ⟨⟨rest, htop⟩, -⟩ := hchains.tid_of_recent hp hrecent
      exact absurd htop (hchains.linked.separate.below_not_top hbelow (List.mem_cons_self ..))
  | @calling q hq hparent' hframe =>
      obtain ⟨t', below', hbelow'⟩ := hchains.caller_below hq hlt hparent'
      rwa [hchains.linked.separate.caller_unique hbelow' hbelow] at hframe

theorem Suspended.congr (h : Suspended code o mem p x)
    (hmem : ∀ a, height (stackBottom p) a < 0x2000 → mem' a = mem a) :
    Suspended code o mem' p x := by
  cases h with
  | preempted ht hactive hrecent hframe =>
      obtain ⟨base, hframe⟩ := hframe
      exact .preempted ht hactive hrecent ⟨base, hframe.congr hmem⟩
  | calling hq hparent hframe => exact .calling hq hparent (hframe.congr hmem)

end Suspended

/-! ## Events that give the processor away -/

section Events

variable {fs : Image} {o o' : Os} {e : OsEvent}

/-- An interrupt of the keyboard or the clock. -/
theorem OsReady.device (h : OsReady fs o) (hstep : o.step fs e = some o') (hirq : e.isIrq = true)
    (htick : e.isTick = false) :
    o'.proc.kernel.runningPid = o.proc.kernel.runningPid ∧ o'.proc.live = o.proc.live := by
  cases e with
  | machine | call | exception => cases hirq
  | pitIrq => cases htick
  | keyboardIrq scan past =>
      rw [Os.step] at hstep
      obtain ⟨_, -, hstep⟩ := Option.bind_eq_some_iff.mp hstep
      obtain ⟨⟨k, r⟩, hkey, hstep⟩ := Option.bind_eq_some_iff.mp hstep
      cases hstep
      rw [irqKeyboardHandler, Option.map_eq_some_iff] at hkey
      obtain ⟨k', hrun, heq⟩ := hkey
      cases heq
      have hevent : o.proc.kernelStep fs (.machine (.key scan past)) =
        some { o.proc with kernel := k } := ProcState.machineStep_key hrun fs
      exact h.tidy.quiet hevent rfl
  | rtcIrq =>
      rw [Os.step] at hstep
      obtain ⟨_, -, hstep⟩ := Option.bind_eq_some_iff.mp hstep
      cases hstep
      exact ⟨rfl, rfl⟩

/-- The timer has left the terminal that was scheduled, and its process is suspended. -/
structure Leaves (o : Os) (ebp : Nat) (o' : Os) : Prop where
  away : o.proc.kernel.terminalNum ≠ o'.proc.kernel.terminalNum
  active : (o'.proc.kernel.terminalArr o.proc.kernel.terminalNum).active = true
  recent : (o'.proc.kernel.terminalArr o.proc.kernel.terminalNum).mostRecentPcb =
    pcbAddr o.proc.kernel.runningPid
  ebp : (o'.proc.kernel.terminalArr o.proc.kernel.terminalNum).ebp = ebp

variable {exeCheck : Buf} {esp ebp ebpExecute : Nat}

theorem OsReady.leaves (h : OsReady fs o) (hlive : o.proc.live ≠ [])
    (hstep : o.step fs (.pitIrq exeCheck esp ebp ebpExecute) = some o') : Leaves o ebp o' := by
  obtain ⟨-, -, hdone⟩ := h.tidy.proc_done (Os.step_tick hstep)
  have hrunning := h.tidy.running hlive
  have hnum := hdone.terminalNum
  rw [ProcEvent.isTick, if_pos rfl] at hnum
  have hsaved := (hdone.leaves h.tidy).2
  refine ⟨?_, ?_, ?_, ?_⟩
  · rw [hnum]
    exact (next_ne _).symm
  all_goals rw [hsaved]
  · exact hrunning.active
  · exact hrunning.recent

/-- **A tick that goes on with a process.** -/
theorem OsReady.tick_frame (h : OsReady fs o)
    (hstep : o.step fs (.pitIrq exeCheck esp ebp ebpExecute) = some o') {ebp' : Nat}
    (hout : pitHandler fs exeCheck esp ebp ebpExecute o.proc.kernel =
      .frame o'.proc.kernel ebp') :
    o'.proc.live = o.proc.live ∧ o'.proc.kernel.pcb = o.proc.kernel.pcb ∧
      o'.proc.kernel.terminalArr o'.proc.kernel.terminalNum =
        o.proc.kernel.terminalArr o'.proc.kernel.terminalNum ∧
      ebp' = (o.proc.kernel.terminalArr o'.proc.kernel.terminalNum).ebp := by
  have htick := Os.step_tick hstep
  obtain ⟨-, -, hdone⟩ := h.tidy.proc_done htick
  have hnum := hdone.terminalNum
  rw [ProcEvent.isTick, if_pos rfl] at hnum
  have hlive : o'.proc.live = o.proc.live := by
    rw [ProcState.step, hout] at htick
    have hsame := congrArg ProcState.live (Option.some.inj htick)
    exact hsame.symm
  have hactive : (o.proc.kernel.terminalArr o'.proc.kernel.terminalNum).active = true := by
    rw [hnum]
    obtain ⟨s, hs⟩ : ∃ s, o'.proc = s := ⟨_, rfl⟩
    rw [hs] at hdone hlive
    cases hdone with
    | resumed hactive => exact hactive
    | opened => exact absurd hlive (List.cons_ne_self _ _)
  obtain ⟨hout', hterm, -, hpcb, -⟩ := hdone.returns fs hactive
  rw [hout] at hout'
  exact ⟨hlive, hpcb, hterm, (Outcome.frame.inj hout').2⟩

/-- **A process that was not alive** runs. -/
theorem OsReady.new_runs (h : OsReady fs o) (hstep : o.step fs e = some o') {p : Nat}
    (hp : p ∉ o.proc.live) (hp' : p ∈ o'.proc.live) : p = o'.proc.kernel.runningPid := by
  have hrunning := (h.step hstep).tidy.running (List.ne_nil_of_mem hp')
  have hlt := (h.step hstep).tidy.lt hrunning.mem
  obtain ⟨es, hrun, hbrief, -⟩ := Os.step_kernelSteps hstep
  rcases h.tidy.brief_cases hrun hbrief with hquiet | ⟨s, e', htidy, hquiet, last⟩
  · exact absurd (hquiet.live ▸ hp') hp
  · rw [← hquiet.live] at hp
    have hstarted : ∀ {k : Kernel} {esp ebp q : Nat}, StartedFrom k esp ebp q o'.proc.kernel →
        o'.proc.live = q :: s.live → p = o'.proc.kernel.runningPid := by
      intro k esp ebp q hstart hlive
      rw [hlive] at hp'
      obtain rfl := (List.mem_cons.mp hp').resolve_right hp
      have hrecent := hrunning.recent
      rw [hstart.started.terminalNum, hstart.started.terminalArr, Function.update_self] at hrecent
      exact pcbAddr_inj hstart.lt hlt hrecent
    cases hproc : e'.isProc with
    | false => exact absurd ((htidy.quiet last hproc).2 ▸ hp') hp
    | true =>
        cases e' with
        | setFds => cases hproc
        | machine e' =>
            cases e' with
            | key | write | plantReturn | takeLine | vidmap | store => cases hproc
            | proc e' =>
                obtain ⟨-, -, hdone⟩ := htidy.proc_done last
                obtain ⟨s', hs'⟩ : ∃ s', o'.proc = s' := ⟨_, rfl⟩
                rw [hs'] at hdone hstarted hp' ⊢
                cases hdone with
                | returned | restarted | resumed => exact absurd hp' hp
                | halted => exact absurd (List.mem_of_mem_erase hp') hp
                | executed _ hstart | opened _ hstart => exact hstarted hstart rfl

/-- One process more. -/
theorem OsReady.starts_new (h : OsReady fs o) (hstep : o.step fs e = some o') {p : Nat}
    (hlive : o'.proc.live = p :: o.proc.live) :
    o'.proc.kernel.runningPid ∉ o.proc.live ∧
      o'.proc.live = o'.proc.kernel.runningPid :: o.proc.live := by
  obtain ⟨σ, hchains⟩ := (h.step hstep).tidy.ready.chains
  have hnodup := hchains.linked.nodup
  rw [hlive] at hnodup
  have hnew := (List.nodup_cons.mp hnodup).1
  rw [← h.new_runs hstep hnew (hlive ▸ List.mem_cons_self ..)]
  exact ⟨hnew, hlive⟩

/-- **A tick that starts a shell.** -/
theorem OsReady.tick_user (h : OsReady fs o)
    (hstep : o.step fs (.pitIrq exeCheck esp ebp ebpExecute) = some o')
    (hout : pitHandler fs exeCheck esp ebp ebpExecute o.proc.kernel = .user o'.proc.kernel) :
    o'.proc.kernel.runningPid ∉ o.proc.live ∧
      o'.proc.live = o'.proc.kernel.runningPid :: o.proc.live := by
  have htick := Os.step_tick hstep
  rw [ProcState.step, hout] at htick
  have hlive := congrArg ProcState.live (Option.some.inj htick)
  exact h.starts_new hstep hlive.symm

/-- **A call of `execute` that starts a process.** -/
theorem OsReady.execute_starts (h : OsReady fs o) {command : CString}
    (hstep : o.step fs (.machine (.proc (.execute command exeCheck esp ebp))) = some o')
    (hstarted : o'.proc.live ≠ o.proc.live) :
    o'.proc.kernel.runningPid ∉ o.proc.live ∧
      o'.proc.live = o'.proc.kernel.runningPid :: o.proc.live := by
  have hproc : o.proc.step fs (.execute command exeCheck esp ebp) = some o'.proc := by
    obtain ⟨s, hproc, rfl⟩ := Option.map_eq_some_iff.mp hstep
    exact hproc
  obtain ⟨-, -, hdone⟩ := h.tidy.proc_done hproc
  obtain ⟨q, hlive⟩ : ∃ q, o'.proc.live = q :: o.proc.live := by
    obtain ⟨s, hs⟩ : ∃ s, o'.proc = s := ⟨_, rfl⟩
    rw [hs] at hdone hstarted ⊢
    cases hdone with
    | returned => exact absurd rfl hstarted
    | executed => exact ⟨_, rfl⟩
  exact h.starts_new hstep hlive

/-- The frame that a function leaves through is one. -/
theorem ComesBack.unique {ebp' : Nat} (h : ComesBack o ebp e o') (h' : ComesBack o ebp' e o') :
    ebp = ebp' := by
  cases h with
  | halt hout =>
      cases h' with
      | halt hout' => exact (Outcome.frame.inj (hout.symm.trans hout')).2
  | exception hout =>
      cases h' with
      | exception hout' =>
          exact (Outcome.frame.inj (Option.some.inj (hout.symm.trans hout'))).2

end Events

/-! ## The simulation -/

/-- The status of a process is no error for `SYSTEM_CALL`. -/
theorem status_toInt (status : UInt8) : 0 ≤ (status.toBitVec.setWidth 32 : Word).toInt := by
  have hlt : status.toBitVec.toNat < 256 := status.toBitVec.isLt
  have hwide : (status.toBitVec.setWidth 32 : Word).toNat = status.toBitVec.toNat := by
    rw [BitVec.toNat_setWidth]
    omega
  rw [BitVec.toInt_eq_toNat_of_lt (by omega)]
  exact Int.natCast_nonneg _

/-- The computer stands for a virtual machine. -/
structure Represents (code : ReturnAddresses) (fs : Image) (c : Computer) (v : Virtual) : Prop where
  os : v.os = c.os
  ready : OsReady fs c.os
  live : c.os.proc.live ≠ []
  cpu : v.contexts c.pid = c.cpu
  waiting : ∀ p ∈ c.os.proc.live, p ≠ c.pid → Suspended code c.os c.mem p (v.contexts p)

namespace Represents

variable {code : ReturnAddresses} {fs : Image} {c c' : Computer} {v : Virtual} {o : Os}
  {e : OsEvent} {mem : Memory}

theorem running (h : Represents code fs c v) : c.pid ∈ c.os.proc.live ∧ c.pid < 6 := by
  have hrunning := h.ready.tidy.running h.live
  exact ⟨hrunning.mem, h.ready.tidy.lt hrunning.mem⟩

theorem height_esp0 (h : Represents code fs c v) : height (stackBottom c.pid) c.esp0 = 0x1FFC := by
  have hheight := height_kernelStackTop h.running.2
  rw [Computer.pid, ← (h.ready.tidy.running h.live).esp0] at hheight
  exact hheight

/-- There is room for an interrupt in user mode too. -/
theorem onStack (h : Represents code fs c v) (hroom : c.KernelRoom) :
    OnStack (stackBottom c.pid) c.esp0 c.cpu := by
  cases huser : c.cpu.user with
  | false => exact hroom huser
  | true =>
      have hheight := h.height_esp0
      have hstack : c.cpu.handlerStack c.esp0 = c.esp0 := by
        rw [Context.handlerStack, huser, if_pos rfl]
      refine ⟨?_, ?_, fun hinner => absurd (huser.symm.trans hinner) (by decide)⟩
      · rw [hstack, hheight]
        decide
      · rw [hstack, hheight]
        decide

/-- **The processes that run neither before nor after an event.** -/
theorem others (h : Represents code fs c v) (hstep : c.os.step fs e = some o)
    (hmem : ∀ q, q < 6 → q ≠ c.pid → q ≠ o.proc.kernel.runningPid →
      ∀ a, height (stackBottom q) a < 0x2000 → mem a = c.mem a)
    {p : Nat} (hp : p ∈ c.os.proc.live) (hidle : p ≠ c.pid)
    (hidle' : p ≠ o.proc.kernel.runningPid) : Suspended code o mem p (v.contexts p) :=
  (h.waiting p hp hidle).step h.ready hstep hp hidle hidle'
    (hmem p (h.ready.tidy.lt hp) hidle hidle')

/-- An event after which the same process runs. -/
theorem same (h : Represents code fs c v) (hstep : c.os.step fs e = some c'.os)
    (hruns : c'.pid = c.pid) (hown : OwnStack c.pid c.mem c'.mem) {x : Nat → Context}
    (hx : x c.pid = c'.cpu)
    (hothers : ∀ p, p ≠ c.pid → x p = v.contexts p) :
    Represents code fs c' ⟨c'.os, x⟩ := by
  refine ⟨rfl, h.ready.step hstep, h.ready.live hstep h.live, hruns ▸ hx, fun p hp hidle => ?_⟩
  have hidle' : p ≠ c.pid := hruns ▸ hidle
  show Suspended code c'.os c'.mem p (x p)
  rw [hothers p hidle']
  have hold : p ∈ c.os.proc.live := by_contra fun hnew => hidle (h.ready.new_runs hstep hnew hp)
  exact h.others hstep (fun q hq hne _ => hown q hq hne) hold hidle' hidle

/-- A new process. -/
theorem starts (h : Represents code fs c v) {x : Context} {segs : Seg → BitVec 16}
    (hstep : c.os.step fs e = some o) (hlive : o.proc.live =
      o.proc.kernel.runningPid :: c.os.proc.live)
    (hown : OwnStack c.pid c.mem mem)
    (hsuspended : Suspended code o mem c.pid c.cpu) :
    Represents code fs ⟨o, x, segs, mem⟩
      ⟨o, Function.update v.contexts o.proc.kernel.runningPid x⟩ := by
  refine ⟨rfl, h.ready.step hstep, h.ready.live hstep h.live, Function.update_self _ _ _,
    fun p hp hidle => ?_⟩
  have hne : p ≠ o.proc.kernel.runningPid := hidle
  have hold : p ∈ c.os.proc.live := by
    have hmem : p ∈ o.proc.live := hp
    rw [hlive] at hmem
    exact (List.mem_cons.mp hmem).resolve_left hne
  show Suspended code o mem p (Function.update v.contexts o.proc.kernel.runningPid x p)
  rw [Function.update_of_ne hne]
  by_cases hpid : p = c.pid
  · rw [hpid, h.cpu]
    exact hsuspended
  · exact h.others hstep (fun q hq hne _ => hown q hq hne) hold hpid hne

/-- **The timer parks the process that runs.** -/
theorem parks (h : Represents code fs c v) (hroom : c.KernelRoom) {s : State}
    (hswitch : ReachesSwitch (stackBottom c.pid) code.irqPitHandler
      (irqCall code.irqPit (c.interrupted .trap)) s)
    (hbody : Stays (stackBottom c.pid) (s.regs .ebp) s.mem mem) :
    (∃ base, PitFrame (stackBottom c.pid) code.irqPit code.irqPitHandler mem (s.regs .ebp) base
      c.cpu) ∧ OwnStack c.pid c.mem mem := by
  have hon := h.onStack hroom
  obtain ⟨⟨base, hframe⟩, hstays⟩ :=
    (hon.called .trap c.segs c.mem code.irqPit).switch hon hswitch
  have hlow : height (stackBottom c.pid) (s.regs .ebp) ≤ 0x2000 := by
    have horder := hframe.order
    have htop := hframe.top
    omega
  exact ⟨⟨base, hframe.stays hbody⟩, (OwnStack.of_stays h.running.2 hstays hon.top).trans
    (.of_stays h.running.2 hbody hlow)⟩

/-- The process that the timer has left is suspended. -/
theorem suspended_of_tick (h : Represents code fs c v) {exeCheck : Buf} {esp ebpExecute : Nat}
    {ebp base : Word}
    (hstep : c.os.step fs (.pitIrq exeCheck esp ebp.toNat ebpExecute) = some o)
    (hframe : PitFrame (stackBottom c.pid) code.irqPit code.irqPitHandler mem ebp base c.cpu) :
    Suspended code o mem c.pid c.cpu := by
  obtain ⟨haway, hactive, hrecent, hebp⟩ := h.ready.leaves h.live hstep
  refine .preempted haway hactive hrecent ⟨base, ?_⟩
  rw [hebp, BitVec.ofNat_toNat, BitVec.setWidth_eq]
  exact hframe

/-- **A tick that goes on with a process**: the one that is parked gets its registers back. -/
theorem resumes (h : Represents code fs c v) {exeCheck : Buf} {ebpExecute ebp : Nat}
    {s r : State} {x : Context} {segs : Seg → BitVec 16} (hroom : c.KernelRoom)
    (hswitch : ReachesSwitch (stackBottom c.pid) code.irqPitHandler
      (irqCall code.irqPit (c.interrupted .trap)) s)
    (hstep : c.os.step fs (.pitIrq exeCheck (s.regs .esp).toNat (s.regs .ebp).toNat
      ebpExecute) = some o)
    (hout : pitHandler fs exeCheck (s.regs .esp).toNat (s.regs .ebp).toNat ebpExecute
      c.os.proc.kernel = .frame o.proc.kernel ebp)
    (hbody : Stays (stackBottom c.pid) (s.regs .ebp) s.mem r.mem)
    (hgoes : Switches (stackBottom o.proc.kernel.runningPid) code.irqPit code.irqPitHandler
      (BitVec.ofNat 32 ebp) r x mem) :
    o.proc.live = c.os.proc.live ∧ Represents code fs ⟨o, x, segs, mem⟩ ⟨o, v.contexts⟩ := by
  obtain ⟨hlive, hpcb, hterm, hebp⟩ := h.ready.tick_frame hstep hout
  obtain ⟨⟨base, hframe⟩, hown⟩ := h.parks hroom hswitch hbody
  have hready' := h.ready.step hstep
  have hrunning := h.ready.tidy.running h.live
  have hrunning' := hready'.tidy.running (h.ready.live hstep h.live)
  have hmem := hrunning'.mem
  rw [hlive] at hmem
  have hlt := h.ready.tidy.lt hmem
  have hne : o.proc.kernel.runningPid ≠ c.pid := by
    intro heq
    have htid := hrunning'.tid
    rw [hpcb, heq] at htid
    exact (h.ready.leaves h.live hstep).away (hrunning.tid.symm.trans htid)
  -- the process that was parked before
  have hrecent := hrunning'.recent
  rw [hterm] at hrecent
  obtain ⟨base', hparked⟩ := (h.waiting _ hmem hne).frame_of_tick h.ready hready' hmem hlive
    hpcb rfl hrecent
  rw [← hebp] at hparked
  have horder := hparked.order
  have htop := hparked.top
  obtain ⟨rfl, hafter⟩ := (hparked.congr (hown _ hlt hne)).resumes hgoes
  have hown' : OwnStack o.proc.kernel.runningPid r.mem mem := by
    have hup : height (stackBottom o.proc.kernel.runningPid) (BitVec.ofNat 32 ebp + 8) =
        height (stackBottom o.proc.kernel.runningPid) (BitVec.ofNat 32 ebp) + 8 :=
      height_add (n := 8) (by omega)
    exact .of_stays hlt hafter (by omega)
  have hboth : ∀ q, q < 6 → q ≠ c.pid → q ≠ o.proc.kernel.runningPid →
      ∀ a, height (stackBottom q) a < 0x2000 → mem a = c.mem a :=
    fun q hq hq₁ hq₂ a ha => (hown' q hq hq₂ a ha).trans (hown q hq hq₁ a ha)
  refine ⟨hlive, rfl, hready', h.ready.live hstep h.live, rfl, fun p hp hidle => ?_⟩
  have hold : p ∈ c.os.proc.live := hlive ▸ hp
  by_cases hpid : p = c.pid
  · subst hpid
    show Suspended code o mem c.pid (v.contexts c.pid)
    rw [h.cpu]
    exact (h.suspended_of_tick hstep hframe).congr (hown' _ h.running.2 hne.symm)
  · exact h.others hstep hboth hold hpid hidle

/-- **A process that ends**: its caller finds the status in EAX. -/
theorem returns (h : Represents code fs c v) {ebp : Nat} {status : UInt8} {r : State} {x : Context}
    {segs : Seg → BitVec 16} (hstep : c.os.step fs e = some o) (hend : c.pid ∉ o.proc.live)
    (hback : ComesBack c.os ebp e o) (hown : OwnStack c.pid c.mem r.mem)
    (hanswers : Answers code.systemCall (BitVec.ofNat 32 ebp) (status.toBitVec.setWidth 32) r x
      mem) :
    Represents code fs ⟨o, x, segs, mem⟩ ⟨o, Function.update v.contexts o.proc.kernel.runningPid
      ((v.contexts o.proc.kernel.runningPid).answer (status.toBitVec.setWidth 32))⟩ := by
  obtain ⟨hback', hparent⟩ := h.ready.ends hstep h.running.1 hend
  obtain rfl := hback.unique hback'
  have hready' := h.ready.step hstep
  have hrunning' := hready'.tidy.running (h.ready.live hstep h.live)
  have hlt := hready'.tidy.lt hrunning'.mem
  have hne : o.proc.kernel.runningPid ≠ c.pid := fun heq => hend (heq ▸ hrunning'.mem)
  obtain ⟨σ, hchains⟩ := h.ready.tidy.ready.chains
  obtain ⟨t, below, hbelow⟩ := hchains.caller_below h.running.1 hlt hparent
  have hmem : o.proc.kernel.runningPid ∈ c.os.proc.live :=
    (hchains.mem_live _).mpr ⟨t, hbelow.subset (List.mem_cons_of_mem _ (List.mem_cons_self ..))⟩
  -- the caller waits in `execute`
  have hframe := ((h.waiting _ hmem hne).frame_of_return h.ready hmem hparent).congr
    (hown _ hlt hne)
  obtain ⟨rfl, rfl⟩ := hframe.answers (status_toInt status) hanswers
  refine ⟨rfl, hready', h.ready.live hstep h.live, Function.update_self _ _ _,
    fun p hp hidle => ?_⟩
  have hp' : p ≠ o.proc.kernel.runningPid := hidle
  have hpid : p ≠ c.pid := fun heq => hend (heq ▸ hp)
  have hold : p ∈ c.os.proc.live := by_contra fun hnew => hp' (h.ready.new_runs hstep hnew hp)
  show Suspended code o r.mem p (Function.update v.contexts o.proc.kernel.runningPid _ p)
  rw [Function.update_of_ne hp']
  exact h.others hstep (fun q hq hne _ => hown q hq hne) hold hpid hp'

/-- **One step of the computer is one of the virtual machine.** -/
theorem step (h : Represents code fs c v) {l : Option OsEvent} (hstep : c.Step code fs l c') :
    ∃ v', v.Step fs l v' ∧ Represents code fs c' v' := by
  obtain ⟨vos, contexts⟩ := v
  obtain rfl : vos = c.os := h.os
  cases hstep with
  | computes hos hown =>
      refine ⟨_, .computes c'.cpu, hos.symm, hos ▸ h.ready, hos ▸ h.live, ?_, fun p hp hidle => ?_⟩
      · rw [Computer.pid, hos]
        exact Function.update_self _ _ _
      · have hne : p ≠ c.pid := by
          rwa [Computer.pid, hos] at hidle
        rw [hos] at hp ⊢
        show Suspended code c.os c'.mem p (Function.update contexts c.pid c'.cpu p)
        rw [Function.update_of_ne hne]
        exact (h.waiting p hp hne).congr (hown p (h.ready.tidy.lt hp) hne)
  | @continues e _ hstep hirq hruns hown =>
      have hcontinues := Virtual.Step.continues (v := ⟨c.os, contexts⟩) hstep hirq hruns c'.cpu
      exact ⟨_, hcontinues, h.same hstep hruns hown (Function.update_self _ _ _)
        fun p hp => Function.update_of_ne hp _ _⟩
  | @device e o s ret hroom hstep hirq htick hesp hstays =>
      obtain ⟨hruns, hlive⟩ := h.ready.device hstep hirq htick
      have hon := h.onStack hroom
      obtain ⟨hcpu, hbelow⟩ := (hon.called .trap c.segs c.mem ret).transparent hon hesp hstays
      -- the computer is the same, with another description of its context
      obtain ⟨cpu, hreturn⟩ : ∃ cpu, irqReturn s = cpu := ⟨_, rfl⟩
      rw [hreturn] at hcpu ⊢
      have hpid : Computer.pid ⟨o, cpu, s.segs, s.mem⟩ = c.pid := hruns
      exact ⟨_, .interrupt hstep hirq hlive, h.same hstep hpid
        (.of_stays h.running.2 hbelow hon.top) (h.cpu.trans hcpu.symm) fun _ _ => rfl⟩
  | @resumes exeCheck ebpExecute ebp s r o x segs mem hroom hswitch hstep hout hbody hgoes =>
      obtain ⟨hlive, hnext⟩ := h.resumes hroom hswitch hstep hout hbody hgoes
      exact ⟨_, .interrupt hstep rfl hlive, hnext⟩
  | @opens exeCheck ebpExecute s o x segs mem hroom hswitch hstep hout hbody hx =>
      obtain ⟨hnew, hlive⟩ := h.ready.tick_user hstep hout
      obtain ⟨⟨base, hframe⟩, hown⟩ := h.parks hroom hswitch hbody
      exact ⟨_, .starts hstep hnew hx,
        h.starts hstep hlive hown (h.suspended_of_tick hstep hframe)⟩
  | @executes command exeCheck s o x segs mem huser hnumber hstart hstep hstarted hbody hx =>
      obtain ⟨hnew, hlive⟩ := h.ready.execute_starts hstep hstarted
      have hchild : o.proc.kernel.runningPid ∈ o.proc.live := by
        rw [hlive]
        exact List.mem_cons_self ..
      obtain ⟨pcb, hwaits, hparent, -, hebp⟩ := h.ready.starts h.live hstep hnew hchild
      have hon := h.onStack fun hinner => absurd (huser.symm.trans hinner) (by decide)
      obtain ⟨hframe, hstays⟩ := hon.executes huser hnumber c.segs hstart
      have htop := hframe.top
      have hown : OwnStack c.pid c.mem mem :=
        (OwnStack.of_stays h.running.2 hstays hon.top).trans
          (.of_stays h.running.2 hbody (by omega))
      refine ⟨_, .starts hstep hnew hx, h.starts hstep hlive hown ?_⟩
      refine .calling hchild (hwaits.link.parent.trans hparent) ?_
      rw [hwaits.link.ebp, hebp, BitVec.ofNat_toNat, BitVec.setWidth_eq]
      exact hframe.stays hbody
  | @returns e ebp status r o x segs mem hstep hend hback hstatus hown hanswers =>
      have hcpu : contexts c.pid = c.cpu := h.cpu
      rw [← hcpu] at hstatus
      exact ⟨_, .returns hstep hend hstatus, h.returns hstep hend hback hown hanswers⟩

theorem run (h : Represents code fs c v) {ls : List (Option OsEvent × Context)}
    (hrun : c.Steps code fs ls c') : ∃ v', v.Steps fs ls v' ∧ Represents code fs c' v' := by
  induction hrun with
  | nil => exact ⟨v, .nil v, h⟩
  | @snoc c₁ c₂ _ _ _ last ih =>
      obtain ⟨v₁, hbefore, h₁⟩ := ih
      obtain ⟨v₂, hlast, h₂⟩ := h₁.step last.1
      have hshown : v₂.contexts v₂.pid = c₂.cpu := by
        rw [Virtual.pid, h₂.os]
        exact h₂.cpu
      exact ⟨v₂, .snoc hbefore ⟨hlast, hshown.trans last.2⟩, h₂⟩

/-- Registers for a program that is started. -/
theorem exists_startsUser (k : Kernel) : ∃ x, StartsUser k x :=
  ⟨{ regs := fun _ => BitVec.ofNat 32 (mostRecent k k.terminalNum).esp
     eflags := eflagsIfMask
     eip := (mostRecent k k.terminalNum).eip.toBitVec
     cs := userCs
     ss := userDs }, rfl, rfl, rfl, rfl, eflagsIfMask, rfl⟩

/-- **Every tick of the system is a step of the computer.** -/
theorem tick (h : Represents code fs c v) (huser : ∀ p, (v.contexts p).user = true)
    (exeCheck : Buf) (ebpExecute : Nat)
    (hserved : ∀ esp ebp, ∃ o, c.os.step fs (.pitIrq exeCheck esp ebp ebpExecute) = some o) :
    ∃ esp ebp c' v', c.Step code fs (some (.pitIrq exeCheck esp ebp ebpExecute)) c' ∧
      c.os.step fs (.pitIrq exeCheck esp ebp ebpExecute) = some c'.os ∧
      Represents code fs c' v' ∧ ∀ p, (v'.contexts p).user = true := by
  have hroom : c.KernelRoom := fun hinner => by
    rw [← h.cpu, huser] at hinner
    cases hinner
  have hon := h.onStack hroom
  -- functions that do nothing but call
  have hcalled := hon.called .trap c.segs c.mem code.irqPit
  obtain ⟨entry, hentry⟩ : ∃ s, irqCall code.irqPit (c.interrupted .trap) = s := ⟨_, rfl⟩
  obtain ⟨s, hswitch⟩ : ∃ s, ReachesSwitch (stackBottom c.pid) code.irqPitHandler entry s := by
    have hdeep : 68 ≤ height (stackBottom c.pid) (entry.regs .esp) := by
      rw [← hentry]
      exact hcalled.room
    have hret : State.Stacked entry [] := trivial
    obtain ⟨hebp, hesp, -, -⟩ :=
      hret.enter (show 4 ≤ height (stackBottom c.pid) _ by omega) (by simp)
    refine ⟨_, entry.enter, .refl ?_, .refl (Nat.zero_le _)⟩
    rw [hesp, height_push (by omega)]
    omega
  rw [← hentry] at hswitch
  obtain ⟨o, hstep⟩ := hserved (s.regs .esp).toNat (s.regs .ebp).toNat
  have htick := Os.step_tick hstep
  obtain ⟨c', hc', hos⟩ : ∃ c', c.Step code fs (some (.pitIrq exeCheck (s.regs .esp).toNat
      (s.regs .ebp).toNat ebpExecute)) c' ∧ c'.os = o := by
    rw [ProcState.step] at htick
    cases hout : pitHandler fs exeCheck (s.regs .esp).toNat (s.regs .ebp).toNat ebpExecute
        c.os.proc.kernel with
    | returned k | fault =>
        rw [hout] at htick
        cases htick
    | user k =>
        rw [hout] at htick
        have hk := congrArg ProcState.kernel (Option.some.inj htick)
        dsimp only at hk
        rw [hk] at hout
        obtain ⟨x, hx⟩ := exists_startsUser o.proc.kernel
        exact ⟨_, .opens c.segs hroom hswitch hstep hout (.refl _ _ _) hx, rfl⟩
    | frame k ebp =>
        rw [hout] at htick
        have hk := congrArg ProcState.kernel (Option.some.inj htick)
        dsimp only at hk
        rw [hk] at hout
        exact ⟨_, .resumes c.segs hroom hswitch hstep hout (.refl _ _ _)
          fun _ => ⟨_, .refl (Nat.zero_le _), fun _ => ⟨rfl, rfl⟩⟩, rfl⟩
  obtain ⟨v', hv', h'⟩ := h.step hc'
  refine ⟨_, _, c', v', hc', hos ▸ hstep, h', fun p => ?_⟩
  cases hv' with
  | continues _ hirq => cases hirq
  | interrupt => exact huser p
  | starts _ _ hx =>
      dsimp only
      rw [Function.update_apply]
      split
      · rw [Context.user, hx.cs]
        rfl
      · exact huser p
  | returns =>
      dsimp only
      rw [Function.update_apply]
      split
      · exact (Context.answer_user _ _).trans (huser _)
      · exact huser p

/-- **A program calls `execute`**, which starts a shell. -/
theorem execute_shell (h : Represents code fs c v) (hshell : ValidShell fs)
    (hfree : c.os.proc.live.length < 6) (huser : c.cpu.user = true)
    (hnumber : c.cpu.regs .eax = 2) :
    ∃ e c' p, c.Step code fs (some e) c' ∧ StartsShell c.os c'.os p := by
  have hstack : c.cpu.handlerStack c.esp0 = c.esp0 := by
    rw [Context.handlerStack, huser, if_pos rfl]
  have htop := h.height_esp0
  rw [← hstack] at htop
  have hlength := c.cpu.frame_length
  rw [huser, if_pos rfl] at hlength
  have hentry : HandlerEntry (stackBottom c.pid) c.esp0 c.mem c.cpu (c.interrupted .interrupt) :=
    c.cpu.interrupted_entry .interrupt c.esp0 c.segs c.mem (by omega)
  have hheight := hentry.height
  -- the wrapper, and a function that does nothing but save EBP
  obtain ⟨s₁, hcalls, hesp₁, -⟩ := systemCall_pushes code.systemCall
    ((hentry.regs .eax (by decide)).trans hnumber)
  have hheight₁ : height (stackBottom c.pid) (s₁.regs .esp) + 52 =
      height (stackBottom c.pid) ((c.interrupted .interrupt).regs .esp) := by
    rw [hesp₁]
    simp only [height] at hheight htop ⊢
    bv_omega
  obtain ⟨hdown, hesp, -, -⟩ := s₁.call_enter (stackBottom c.pid) code.systemCall (by omega)
  obtain ⟨s, hs⟩ : ∃ s, (s₁.push code.systemCall).enter = s := ⟨_, rfl⟩
  rw [hs] at hdown hesp
  have hstart : ReachesStart (stackBottom c.pid) code.systemCall (c.interrupted .interrupt) s :=
    ⟨s₁, hcalls, hs ▸ .refl (Nat.zero_le _)⟩
  -- `execute`
  have hlow : height (stackBottom c.pid) (s.regs .esp) < 0x2000 := by
    rw [hesp]
    omega
  obtain ⟨haddr, hcurr⟩ := toNat_of_height h.running.2 hlow
  have hrunning := h.ready.tidy.running h.live
  have hon : OnKernelStack c.os.proc.kernel (s.regs .esp).toNat := by
    rw [OnKernelStack, hcurr, hrunning.esp0]
    exact (getCurrPcb_kernelStackTop h.running.2).symm
  have harrays : RoomForArrays (s.regs .esp).toNat shellCString.val := by
    have hshort : shellCString.val.length ≤ 6 := by decide
    rw [RoomForArrays, hcurr, haddr, hesp]
    generalize shellCString.val.length = n at *
    omega
  obtain ⟨o, p, hstep, hstarts⟩ := h.ready.execute_shell hshell h.live hfree
    (s.regs .esp).toNat (s.regs .ebp).toNat (.inr ⟨h.live, hon, hesp ▸ hon, by decide, harrays⟩)
  obtain ⟨x, hx⟩ := exists_startsUser o.proc.kernel
  exact ⟨_, _, p, .executes c.segs huser hnumber hstart hstep
    (hstarts.live ▸ List.cons_ne_self _ _) (.refl _ _ _) hx, hstarts⟩

/-- **A program calls `halt`**, and its caller goes on with the low byte of its EBX in EAX. -/
theorem halt_returns (h : Represents code fs c v) (huser : c.cpu.user = true)
    (hnumber : c.cpu.regs .eax = 1) {q : Nat} (hq : q ∈ c.os.proc.live)
    (hparent : (c.os.proc.kernel.pcb (pcbAddr c.pid)).parent = pcbAddr q) :
    ∃ c', c.Step code fs (some (.haltNow c.os.proc.kernel)) c' ∧ c'.pid = q ∧
      c'.cpu.regs .eax = ((c.cpu.regs .ebx).setWidth 8).setWidth 32 := by
  obtain ⟨o, hstep, hends⟩ := h.ready.child_halts hq hparent
  have hend : c.pid ∉ o.proc.live := by
    obtain ⟨σ, hchains⟩ := h.ready.tidy.ready.chains
    rw [hends.live]
    exact hchains.linked.nodup.not_mem_erase
  have hback := (h.ready.ends hstep h.running.1 hend).1
  obtain ⟨ebp, hebp⟩ : ∃ ebp, (c.os.proc.kernel.pcb (pcbAddr c.pid)).ebp = ebp := ⟨_, rfl⟩
  rw [hebp] at hback
  obtain ⟨status, hstatus⟩ : ∃ status : UInt8, status.toBitVec = (c.cpu.regs .ebx).setWidth 8 :=
    ⟨.ofBitVec _, rfl⟩
  -- `halt` does nothing but leave
  let r : State := { regs := c.cpu.regs, segs := c.segs, eflags := c.cpu.eflags, mem := c.mem }
  obtain ⟨result, hresult⟩ : ∃ t, ((r.setReg .ebp (BitVec.ofNat 32 ebp)).setReg .eax
      (status.toBitVec.setWidth 32)).leaveRet = t := ⟨_, rfl⟩
  have heax : result.regs .eax = status.toBitVec.setWidth 32 := hresult ▸ rfl
  obtain ⟨s, hrun, -, hsame⟩ := systemCall_returns_mem code.systemCall
    (heax ▸ status_toInt status : 0 ≤ (result.regs .eax).toInt)
  refine ⟨⟨o, s.iret kernelDs, c.segs, s.mem⟩, .returns (r := r) c.segs hstep hend hback
    ⟨huser, hnumber, hstatus⟩ (fun _ _ _ _ _ => rfl) fun _ => ⟨s, hresult ▸ hrun, rfl, rfl⟩,
    hends.runs, ?_⟩
  rw [s.iret_regs kernelDs (by decide), hsame, heax, hstatus]

/-- When there is one process, nobody waits. -/
theorem single (hready : OsReady fs c.os) {p : Nat} (hone : c.os.proc.live = [p]) :
    Represents code fs c ⟨c.os, fun _ => c.cpu⟩ := by
  have hlive : c.os.proc.live ≠ [] := hone ▸ List.cons_ne_nil p []
  refine ⟨rfl, hready, hlive, rfl, fun q hq hidle => ?_⟩
  have hmem := (hready.tidy.running hlive).mem
  rw [hone, List.mem_singleton] at hq hmem
  exact absurd (hq.trans hmem.symm) hidle

end Represents

/-! ## Registers of a process that does not run -/

section Registers

variable {code : ReturnAddresses} {fs : Image} {v v' : Virtual} {l : Option OsEvent}

/-- **Only the process that runs** after a step has new registers. -/
theorem Virtual.Step.idle (h : v.Step fs l v') {p : Nat} (hp : p ≠ v'.pid) :
    v'.contexts p = v.contexts p := by
  cases h with
  | computes x => exact Function.update_of_ne hp _ _
  | continues hstep hirq hruns x => exact Function.update_of_ne (hruns ▸ hp) _ _
  | interrupt => rfl
  | starts hstep hnew hx => exact Function.update_of_ne hp _ _
  | returns hstep hend hstatus => exact Function.update_of_ne hp _ _

/-- What a process finds when it goes on: its registers, with the status of its child in EAX when
this has ended. -/
theorem Virtual.Step.goes_on (h : v.Step fs l v') (hidle : v'.pid ≠ v.pid)
    (halive : v'.pid ∈ v.os.proc.live) :
    v'.contexts v'.pid = v.contexts v'.pid ∨
      ∃ e status, l = some e ∧ e.Status (v.contexts v.pid) status ∧ v.pid ∉ v'.os.proc.live ∧
        v'.contexts v'.pid = (v.contexts v'.pid).answer (status.toBitVec.setWidth 32) := by
  cases h with
  | computes => exact absurd rfl hidle
  | continues hstep hirq hruns => exact absurd hruns hidle
  | interrupt => exact .inl rfl
  | starts hstep hnew => exact absurd halive hnew
  | @returns e o status hstep hend hstatus =>
      exact .inr ⟨e, status, rfl, hstatus, hend, Function.update_self _ _ _⟩

/-- A run after each step of which another process than `p` runs. -/
abbrev Computer.StepsAway (p : Nat) (code : ReturnAddresses) (fs : Image) :
    Computer → List (Option OsEvent) → Computer → Prop :=
  Run fun c l c' => c.Step code fs l c' ∧ p ≠ c'.pid

theorem Represents.away {c c' : Computer} {p : Nat} (h : Represents code fs c v)
    {ls : List (Option OsEvent)} (haway : c.StepsAway p code fs ls c') :
    ∃ v', Represents code fs c' v' ∧ v'.contexts p = v.contexts p := by
  refine haway.invariant (fun b => ∃ v', Represents code fs b v' ∧ v'.contexts p = v.contexts p)
    ⟨v, h, rfl⟩ ?_
  rintro a l b ⟨v₁, h₁, hsame⟩ ⟨hstep, hidle⟩
  obtain ⟨v₂, hstep₂, h₂⟩ := h₁.step hstep
  refine ⟨v₂, h₂, (hstep₂.idle ?_).trans hsame⟩
  rw [Virtual.pid, h₂.os]
  exact hidle

end Registers

/-! ## Runs -/

section Reachable

variable {code : ReturnAddresses} {fs : Image} {m : PowerOn} {master slave : Pic8259}
  {index : UInt8} {reg : UInt8 → UInt8} {es : List OsEvent} {c c₁ c₂ c₃ : Computer}

/-- **The computer refines one processor for every process**, from the first shell on. -/
theorem computer_refines_of_run (hcursor : m.CursorOnScreen)
    (hrun : (Os.boot m master slave index reg).Steps fs es c.os) {p : Nat}
    (hone : c.os.proc.live = [p]) {ls : List (Option OsEvent × Context)}
    (hmore : c.Steps code fs ls c₁) :
    ∃ v, Virtual.Steps fs ⟨c.os, fun _ => c.cpu⟩ ls v ∧ Represents code fs c₁ v :=
  (Represents.single ((osReady_boot fs hcursor master slave index reg).run hrun) hone).run hmore

/-- Where the first shell is in user mode. -/
def shellContext : Context where
  regs := fun _ => 0x8400000
  eflags := 0x202
  eip := 0x8048000
  cs := userCs
  ss := userDs

/-- Where a shell calls `halt(0x105)`. -/
def haltContext : Context where
  regs
    | .eax => 1
    | .ebx => 0x105
    | _ => 0x8400000
  eflags := 0x202
  eip := 0x8048100
  cs := userCs
  ss := userDs

theorem exists_computer_shell (x : Context) : ∃ c : Computer, FirstShell c.os ∧ c.cpu = x := by
  obtain ⟨o, hfirst⟩ := exists_system_shell
  exact ⟨⟨o, x, fun _ => 0x2B, fun _ => 0⟩, hfirst, rfl⟩

/-- Three ticks after the first shell it runs again, and other shells have run in between. -/
theorem exists_three_ticks (code : ReturnAddresses) :
    ∃ (es : List OsEvent) (c c₁ c₂ c₃ : Computer) (l₁ l₂ l₃ : Option OsEvent),
      (Os.boot .blank (I8259.chip 0xFB) (I8259.chip 0xFF) 0 fun _ => 0).Steps shellImage es c.os ∧
      c.os.proc.live = [0] ∧ c.Step code shellImage l₁ c₁ ∧ c₁.Step code shellImage l₂ c₂ ∧
      c₂.Step code shellImage l₃ c₃ ∧ c.pid ≠ c₁.pid ∧ c.pid ≠ c₂.pid ∧ c₃.pid = c.pid ∧
      c.pid ∈ c₂.os.proc.live ∧ c₂.pid ∈ c₃.os.proc.live := by
  obtain ⟨c, hfirst, hcpu⟩ := exists_computer_shell shellContext
  obtain ⟨es, hrun⟩ := hfirst.reached
  obtain ⟨-, hlive, hready, hlines, -⟩ := hfirst
  have hlength : c.os.proc.live.length = 1 := congrArg List.length hlive
  have hne : c.os.proc.live ≠ [] := hlive ▸ List.cons_ne_nil 0 []
  have hrepresents : Represents code shellImage c ⟨c.os, fun _ => c.cpu⟩ := .single hready hlive
  have huser : c.cpu.user = true := hcpu ▸ rfl
  -- the ticks
  obtain ⟨esp₁, ebp₁, c₁, v₁, hstep₁, hos₁, h₁, huser₁⟩ := hrepresents.tick
    (fun _ => huser) (fun _ => 0) 0 fun esp ebp =>
      hready.pit_room hlines validShell_shellImage (by omega) _ esp ebp 0
  obtain ⟨hroom₁, hnum₁⟩ := hready.tick_length hos₁
  have hlines₁ := hlines.step hos₁
  obtain ⟨esp₂, ebp₂, c₂, v₂, hstep₂, hos₂, h₂, huser₂⟩ := h₁.tick huser₁ (fun _ => 0) 0
    fun esp ebp => h₁.ready.pit_room hlines₁ validShell_shellImage (by omega) _ esp ebp 0
  obtain ⟨hroom₂, hnum₂⟩ := h₁.ready.tick_length hos₂
  have hlines₂ := hlines₁.step hos₂
  obtain ⟨esp₃, ebp₃, c₃, v₃, hstep₃, hos₃, h₃, -⟩ := h₂.tick huser₂ (fun _ => 0) 0
    fun esp ebp => h₂.ready.pit_room hlines₂ validShell_shellImage (by omega) _ esp ebp 0
  obtain ⟨-, hnum₃⟩ := h₂.ready.tick_length hos₃
  -- the shell is of another terminal in between
  have hrunning := hready.tidy.running hne
  obtain ⟨-, -, hdone₁⟩ := hready.tidy.proc_done (Os.step_tick hos₁)
  obtain ⟨-, -, hdone₂⟩ := h₁.ready.tidy.proc_done (Os.step_tick hos₂)
  have hkeeps₁ := (hdone₁.leaves hready.tidy).1 _ hrunning.mem
  have hkeeps₂ := hkeeps₁.trans ((hdone₂.leaves h₁.ready.tidy).1 _ hkeeps₁.live)
  have hother : ∀ {c' : Computer} {v' : Virtual}, Represents code shellImage c' v' →
      KeepsProcess c.pid c.os.proc c'.os.proc →
      c'.os.proc.kernel.terminalNum ≠ c.os.proc.kernel.terminalNum → c.pid ≠ c'.pid := by
    intro c' v' h' hkeeps haway heq
    have htid := (h'.ready.tidy.running h'.live).tid
    rw [show c'.os.proc.kernel.runningPid = c.pid from heq.symm, hkeeps.pcb] at htid
    exact haway (htid.symm.trans hrunning.tid)
  have haway₂ : c₂.os.proc.kernel.terminalNum ≠ c.os.proc.kernel.terminalNum := by
    rw [hnum₂, hnum₁]
    exact (by decide : ∀ t : Tid, t + 1 + 1 ≠ t) _
  have hthere : c₃.os.proc.kernel.terminalNum = c.os.proc.kernel.terminalNum := by
    rw [hnum₃, hnum₂, hnum₁]
    exact (by decide : ∀ t : Tid, t + 1 + 1 + 1 = t) _
  have hback := (hready.preempted hne hos₁ (Run.single ⟨hos₂, haway₂⟩) hos₃ hthere).2
  obtain ⟨-, -, hdone₃⟩ := h₂.ready.tidy.proc_done (Os.step_tick hos₃)
  have hkept := ((hdone₃.leaves h₂.ready.tidy).1 _ h₂.running.1).live
  exact ⟨es, c, c₁, c₂, c₃, _, _, _, hrun, hlive, hstep₁, hstep₂, hstep₃,
    hother h₁ hkeeps₁ (hnum₁ ▸ next_ne _), hother h₂ hkeeps₂ haway₂, hback.runningPid,
    hkeeps₂.live, hkept⟩

/-- The first shell starts another one, which halts, and runs again. -/
theorem exists_child (code : ReturnAddresses) :
    ∃ (es : List OsEvent) (c c₁ c₂ c₃ : Computer) (e : OsEvent) (k : Kernel),
      (Os.boot .blank (I8259.chip 0xFB) (I8259.chip 0xFF) 0 fun _ => 0).Steps shellImage es c.os ∧
      c.os.proc.live = [0] ∧ c.Step code shellImage (some e) c₁ ∧ c₁.Step code shellImage none c₂ ∧
      c₂.Step code shellImage (some (.haltNow k)) c₃ ∧ c.pid ≠ c₁.pid ∧ c.pid ≠ c₂.pid ∧
      c₃.pid = c.pid ∧ c.pid ∈ c₂.os.proc.live ∧ c.cpu = shellContext.answer 2 ∧
      c₂.cpu = haltContext ∧ c₃.cpu.regs .eax = 5 := by
  obtain ⟨c, hfirst, hcpu⟩ := exists_computer_shell (shellContext.answer 2)
  obtain ⟨es, hrun⟩ := hfirst.reached
  have hlive := hfirst.live
  have hfree : c.os.proc.live.length < 6 := by
    rw [hlive]
    decide
  have h : Represents code shellImage c ⟨c.os, fun _ => c.cpu⟩ := .single hfirst.ready hlive
  -- `execute`
  obtain ⟨e, c₁, p, hstep₁, hstarts⟩ := h.execute_shell validShell_shellImage hfree
    (hcpu ▸ rfl) (hcpu ▸ rfl)
  obtain ⟨v₁, -, h₁⟩ := h.step hstep₁
  have hrunning := h.running.1
  have hruns₁ : c₁.pid = p := hstarts.runs
  have haway : c.pid ≠ c₁.pid := by
    intro heq
    rw [heq, hruns₁] at hrunning
    exact hstarts.new hrunning
  have hcaller : c.pid ∈ c₁.os.proc.live := by
    rw [hstarts.live]
    exact List.mem_cons_of_mem p hrunning
  have hparent : (c₁.os.proc.kernel.pcb (pcbAddr c₁.pid)).parent = pcbAddr c.pid := by
    rw [hruns₁]
    exact hstarts.parent
  -- the new shell goes on in user mode, and calls `halt`
  have huser₂ : haltContext.user = true := by decide
  have hstep₂ : c₁.Step code shellImage none { c₁ with cpu := haltContext } :=
    .computes rfl fun _ _ _ _ _ => rfl
  obtain ⟨v₂, -, h₂⟩ := h₁.step hstep₂
  obtain ⟨c₃, hstep₃, hpid₃, heax⟩ := h₂.halt_returns huser₂ rfl hcaller hparent
  have hfive : ((haltContext.regs .ebx).setWidth 8).setWidth 32 = (5 : Word) := by decide
  exact ⟨es, c, c₁, _, c₃, e, _, hrun, hlive, hstep₁, hstep₂, hstep₃, haway, haway, hpid₃, hcaller,
    hcpu, rfl, heax.trans hfive⟩

/-- Addresses in a kernel that is linked at 4 MB. -/
def linkedAddresses : ReturnAddresses := ⟨0x400100, 0x400200, 0x400300⟩

/-- Three ticks. -/
theorem computer_refines_of_run_shells :
    ∃ (c c₃ : Computer) (v : Virtual) (ls : List (Option OsEvent × Context)), ls.length = 3 ∧
      Virtual.Steps shellImage ⟨c.os, fun _ => c.cpu⟩ ls v ∧
      Represents linkedAddresses shellImage c₃ v := by
  obtain ⟨es, c, c₁, c₂, c₃, l₁, l₂, l₃, hrun, hlive, hstep₁, hstep₂, hstep₃, -⟩ :=
    exists_three_ticks linkedAddresses
  have hsteps : c.Steps linkedAddresses shellImage [(l₁, c₁.cpu), (l₂, c₂.cpu), (l₃, c₃.cpu)] c₃ :=
    ((Run.single ⟨hstep₁, rfl⟩).snoc ⟨hstep₂, rfl⟩).snoc ⟨hstep₃, rfl⟩
  obtain ⟨v, hv, hrepresents⟩ := computer_refines_of_run (by decide) hrun hlive hsteps
  exact ⟨c, c₃, v, _, rfl, hv, hrepresents⟩

/-- **A process finds its registers again.**  From any state in which `c₁` runs, however others run
in between, it goes on with all its registers, its flags and its stack pointer, or, when it waited
for a process that has ended, with the status of that process in EAX and all the others. -/
theorem registers_of_run (hcursor : m.CursorOnScreen)
    (hrun : (Os.boot m master slave index reg).Steps fs es c.os) {p : Nat}
    (hone : c.os.proc.live = [p]) {ls : List (Option OsEvent × Context)}
    (hmore : c.Steps code fs ls c₁) {ls' : List (Option OsEvent)}
    (haway : c₁.StepsAway c₁.pid code fs ls' c₂) (hidle : c₂.pid ≠ c₁.pid)
    (halive : c₁.pid ∈ c₂.os.proc.live) {l : Option OsEvent} (hback : c₂.Step code fs l c₃)
    (hruns : c₃.pid = c₁.pid) :
    c₃.cpu = c₁.cpu ∨
      ∃ e status, l = some e ∧ e.Status c₂.cpu status ∧ c₂.pid ∉ c₃.os.proc.live ∧
        c₃.cpu = c₁.cpu.answer (status.toBitVec.setWidth 32) := by
  have hready := (osReady_boot fs hcursor master slave index reg).run hrun
  obtain ⟨v₁, -, h₁⟩ := (Represents.single hready hone).run hmore
  obtain ⟨v₂, h₂, hkept⟩ := h₁.away haway
  obtain ⟨v₃, hstep, h₃⟩ := h₂.step hback
  have hpid₂ : v₂.pid = c₂.pid := congrArg (fun o : Os => o.proc.kernel.runningPid) h₂.os
  have hpid₃ : v₃.pid = c₃.pid := congrArg (fun o : Os => o.proc.kernel.runningPid) h₃.os
  have hgoes := hstep.goes_on (by rw [hpid₃, hpid₂, hruns]; exact hidle.symm)
    (by rw [hpid₃, hruns, h₂.os]; exact halive)
  rw [hpid₃, hpid₂, h₂.cpu, h₃.os, h₃.cpu, hruns, hkept, h₁.cpu] at hgoes
  exact hgoes

/-- The first shell goes on after three ticks, and after the shell that it started has ended with
`halt(0x105)`. -/
theorem registers_of_run_shells :
    (∃ (c₁ c₂ c₃ : Computer) (l₁ l₂ l₃ : Option OsEvent),
      c₁.StepsAway c₁.pid linkedAddresses shellImage [l₁, l₂] c₂ ∧
      c₂.Step linkedAddresses shellImage l₃ c₃ ∧ c₃.cpu = c₁.cpu) ∧
    ∃ (c₁ c₂ c₃ : Computer) (e e' : OsEvent),
      c₁.StepsAway c₁.pid linkedAddresses shellImage [some e, none] c₂ ∧ c₂.cpu = haltContext ∧
      c₂.Step linkedAddresses shellImage (some e') c₃ ∧ c₃.cpu = c₁.cpu.answer 5 := by
  constructor
  · obtain ⟨es, c, c₁, c₂, c₃, l₁, l₂, l₃, hrun, hlive, hstep₁, hstep₂, hstep₃, haway₁, haway₂,
      hback, halive, hkept⟩ := exists_three_ticks linkedAddresses
    have haway : c.StepsAway c.pid linkedAddresses shellImage [l₁, l₂] c₂ :=
      (Run.single ⟨hstep₁, haway₁⟩).snoc ⟨hstep₂, haway₂⟩
    refine ⟨c, c₂, c₃, l₁, l₂, l₃, haway, hstep₃, ?_⟩
    rcases registers_of_run (by decide) hrun hlive (.nil c) haway haway₂.symm halive hstep₃ hback
      with hsame | ⟨-, -, -, -, hend, -⟩
    · exact hsame
    · exact absurd hkept hend
  · obtain ⟨es, c, c₁, c₂, c₃, e, k, hrun, hlive, hstep₁, hstep₂, hstep₃, haway₁, haway₂, hback,
      halive, hcpu, hcpu₂, heax⟩ := exists_child linkedAddresses
    have haway : c.StepsAway c.pid linkedAddresses shellImage [some e, none] c₂ :=
      (Run.single ⟨hstep₁, haway₁⟩).snoc ⟨hstep₂, haway₂⟩
    refine ⟨c, c₂, c₃, e, _, haway, hcpu₂, hstep₃, ?_⟩
    rcases registers_of_run (by decide) hrun hlive (.nil c) haway haway₂.symm halive hstep₃ hback
      with hsame | ⟨e', status, he, hstatus, -, hanswer⟩
    · -- in EAX was the number of `execute`
      rw [hsame, hcpu] at heax
      exact absurd heax (by decide)
    · cases he
      have hfive : status.toBitVec = 5 := hstatus.2.2.trans (by rw [hcpu₂]; rfl)
      rw [hanswer, hfive]
      rfl

end Reachable

end JuddOS
