import JuddOS.RtcRegisters

/-!
# The interrupt line of the real-time clock

The functions of the clock disable an interrupt line before they rewrite register A and enable it
afterwards, but the number they give is that of a port.  So they do nothing to any line.

`RtcStatement` has the statements that reach a port one by one, so that the masks can be looked at
while register A is written; `RtcCall.run_eq_code` says that these statements are the functions.
`keepsLine_iff_of_run`: no call does what it should.
-/

namespace JuddOS

open Support

/-- A statement that reaches a port. -/
inductive RtcStatement
  /-- `outb(b, RTC_PORT)`. -/
  | select (b : UInt8)
  /-- `prev = inb(RTC_DATA_PORT)`. -/
  | readPrev
  /-- `outb(f(prev), RTC_DATA_PORT)`. -/
  | write (f : UInt8 → UInt8)
  | enableIrq (irqNum : UInt32)
  | disableIrq (irqNum : UInt32)

namespace RtcStatement

/-- What a statement does to `prev` and the clock. -/
def exec : RtcStatement → UInt8 × Rtc → UInt8 × Rtc
  | .select b, (prev, r) => (prev, r.select b)
  | .readPrev, (_, r) => (r.data, r)
  | .write f, (prev, r) => (prev, r.writeData (f prev))
  | .enableIrq irqNum, (prev, r) => (prev, r.enableIrq irqNum)
  | .disableIrq irqNum, (prev, r) => (prev, r.disableIrq irqNum)

/-- Statements in order. -/
def execAll : List RtcStatement → UInt8 × Rtc → UInt8 × Rtc
  | [], s => s
  | statement :: rest, s => execAll rest (statement.exec s)

/-- The statement is a write to the data port. -/
def writes : RtcStatement → Bool
  | .write _ => true
  | _ => false

/-- The states in which register A is written. -/
def rewrites : List RtcStatement → UInt8 × Rtc → List Rtc
  | [], _ => []
  | statement :: rest, s =>
      if statement.writes ∧ s.2.index = regA then s.2 :: rewrites rest (statement.exec s)
      else rewrites rest (statement.exec s)

end RtcStatement

open RtcStatement

/-- The tail of `rtc_open` and of `rtc_write`. -/
def setRateCode (rate : UInt8) : List RtcStatement :=
  [.disableIrq rtcPort, .select rtcA, .readPrev, .select rtcA,
    .write fun prev => (prev &&& initPrevAnd) ||| rate, .enableIrq rtcPort]

/-- `rtc_init` and `rtc_open`. -/
def openCode : List RtcStatement :=
  [.select rtcA, .readPrev, .select rtcB, .write fun prev => prev ||| initPrevOr,
    .enableIrq rtcPort] ++ setRateCode (initBaserate &&& initBaserateMask)

/-- The rate that `rtc_write` computes. -/
def writtenRate (buf : Buf) : UInt8 :=
  (initBaserate + 1 - UInt8.ofNat (rateLoop 32 (buf.word 0).toInt32.toInt.toNat 0 false).1) &&&
    initBaserateMask

/-- The statements of a call, those of `rtc_write` behind its tests. -/
def RtcCall.code : RtcCall → List RtcStatement
  | .init => openCode
  | .openRtc => openCode
  | .write buf _ => setRateCode (writtenRate buf)

/-- `rtc_write` accepts what it is given. -/
def RtcCall.Accepted (r : Rtc) : RtcCall → Prop
  | .init => True
  | .openRtc => True
  | .write buf nbytes => (rtcWrite buf nbytes r).1 = 0

/-- An accepted call gets through both tests. -/
theorem rtcWrite_of_accepted {buf : Buf} {nbytes : Int32} {r : Rtc}
    (h : (rtcWrite buf nbytes r).1 = 0) :
    (rtcWrite buf nbytes r).2 = r.setRate (writtenRate buf) := by
  have hne : (-1 : Int32) ≠ 0 := by decide
  unfold rtcWrite at h ⊢
  dsimp only at h ⊢
  split at h
  case isTrue => exact absurd h hne
  case isFalse hfirst =>
    rw [if_neg hfirst]
    split at h
    case isTrue => exact absurd h hne
    case isFalse hrange =>
      rw [if_neg hrange]
      rfl

/-- **The statements are the functions.**  `prev` is assigned before it is used. -/
theorem RtcCall.run_eq_code {r : Rtc} {c : RtcCall} (h : c.Accepted r) (prev : UInt8) :
    c.run r = { (execAll c.code (prev, r)).2 with rtcSignal := (c.run r).rtcSignal } := by
  cases c with
  | init => rfl
  | openRtc => rfl
  | write buf nbytes =>
      have hrun : (RtcCall.write buf nbytes).run r = r.setRate (writtenRate buf) :=
        rtcWrite_of_accepted h
      rw [hrun]
      rfl

/-! ## The line -/

/-- The line of the clock is disabled. -/
def Rtc.lineDisabled (r : Rtc) : Bool := r.irq.lineMasked 8

/-- What a call should do about its line: it is disabled while register A is written, and enabled
at the end. -/
structure KeepsLine (r : Rtc) (c : RtcCall) (r' : Rtc) : Prop where
  during : ∀ prev, ∀ s ∈ rewrites c.code (prev, r), s.lineDisabled = true
  after : r'.lineDisabled = false

/-- A statement that leaves the masks alone. -/
def RtcStatement.Unmasking : RtcStatement → Prop
  | .enableIrq irqNum => irqNum = rtcPort
  | .disableIrq irqNum => irqNum = rtcPort
  | _ => True

theorem RtcStatement.exec_irq {statement : RtcStatement} (h : statement.Unmasking)
    (s : UInt8 × Rtc) : (statement.exec s).2.irq = s.2.irq := by
  cases statement with
  | select b => rfl
  | readPrev => rfl
  | write f => rfl
  | enableIrq irqNum =>
      have hnum : irqNum = rtcPort := h
      rw [hnum]
      exact congrArg Rtc.irq s.2.enableIrq_rtcPort
  | disableIrq irqNum =>
      have hnum : irqNum = rtcPort := h
      rw [hnum]
      exact congrArg Rtc.irq s.2.disableIrq_rtcPort

/-- Nothing happens to the masks before a write to register A. -/
theorem irq_of_rewrites {code : List RtcStatement} (hcode : ∀ statement ∈ code, statement.Unmasking)
    {s : UInt8 × Rtc} {r : Rtc} (hr : r ∈ rewrites code s) : r.irq = s.2.irq := by
  induction code generalizing s with
  | nil => exact absurd hr List.not_mem_nil
  | cons statement rest ih =>
      have hhead := RtcStatement.exec_irq (hcode statement List.mem_cons_self) s
      have htail : r ∈ rewrites rest (statement.exec s) → r.irq = s.2.irq := fun hrest =>
        (ih (fun statement hmem => hcode statement (List.mem_cons_of_mem _ hmem)) hrest).trans hhead
      rw [rewrites] at hr
      split at hr
      · rcases List.mem_cons.mp hr with rfl | hrest
        · rfl
        · exact htail hrest
      · exact htail hr

theorem unmasking_code (c : RtcCall) : ∀ statement ∈ c.code, statement.Unmasking := by
  cases c <;>
    simp [RtcCall.code, openCode, setRateCode, RtcStatement.Unmasking]

/-- Every call writes register A. -/
theorem exists_rewrites (c : RtcCall) (s : UInt8 × Rtc) : ∃ r, r ∈ rewrites c.code s := by
  have hindex : rtcA &&& 0x7F = regA := by decide
  have hother : rtcB &&& 0x7F ≠ regA := by decide
  cases c <;>
    simp [RtcCall.code, openCode, setRateCode, rewrites, RtcStatement.writes, RtcStatement.exec,
      Rtc.select, Rtc.writeData, Rtc.disableIrq, Rtc.enableIrq, hindex, hother]

theorem RtcCall.run_irq (c : RtcCall) (r : Rtc) : (c.run r).irq = r.irq := by
  cases c with
  | init => exact (congrArg Rtc.irq (rtcInit_eq r)).trans (rtcOpen_irq r)
  | openRtc => exact rtcOpen_irq r
  | write buf nbytes => exact rtcWrite_irq buf nbytes r

/-- **No call keeps its line**, whatever the masks are: they are the same at the end as they are
while register A is written. -/
theorem not_keepsLine (r : Rtc) (c : RtcCall) : ¬ KeepsLine r c (c.run r) := by
  intro h
  obtain ⟨s, hs⟩ := exists_rewrites c (0, r)
  have hduring := h.during 0 s hs
  have hafter := h.after
  rw [Rtc.lineDisabled, irq_of_rewrites (unmasking_code c) hs] at hduring
  rw [Rtc.lineDisabled, c.run_irq] at hafter
  exact Bool.false_ne_true (hafter.symm.trans hduring)

/-- A step of a run: `rtc_init`, `rtc_open` or an accepted `rtc_write`. -/
def AcceptedStep (r : Rtc) (c : RtcCall) (r' : Rtc) : Prop := c.Accepted r ∧ c.run r = r'

/-- **In every run**, from any masks, the calls all keep their line exactly when there is none. -/
theorem keepsLine_iff_of_run (r r' : Rtc) (calls : List RtcCall) :
    Run (fun a c b => AcceptedStep a c b ∧ KeepsLine a c b) r calls r' ↔
      calls = [] ∧ r' = r := by
  constructor
  · intro hrun
    cases hrun with
    | nil => exact ⟨rfl, rfl⟩
    | snoc before last =>
        obtain ⟨⟨-, rfl⟩, hkeeps⟩ := last
        exact absurd hkeeps (not_keepsLine _ _)
  · rintro ⟨rfl, rfl⟩
    exact .nil _

/-- After `rtc_init` the line of the clock is still disabled. -/
theorem rtcInit_leaves_line :
    ¬ ∀ (r r' : Rtc) (calls : List RtcCall), Run AcceptedStep r calls r' →
      Run (fun a c b => AcceptedStep a c b ∧ KeepsLine a c b) r calls r' := by
  intro hall
  have hrun := hall firmwareRtc _ [.init] (Run.single ⟨trivial, rfl⟩)
  have hline := hrun.of_single.2.after
  revert hline
  decide

end JuddOS
