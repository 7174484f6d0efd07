import JuddOS.Drawing
import JuddOS.Keyboard

/-!
# Key events

`translate` answers with a character and a set of flags, and `keyboard_handler_main` tests the
flags in a fixed order.  `Key` is what the two make of a scan code, and `handleKey` what is
then done; `keyboardHandlerMain_eq` says that this is the handler, as long as no flag is left
over from an earlier key (`NoKeyPending`).
-/

namespace JuddOS

/-- The meaning of a scan code. -/
inductive Key
  /-- A modifier, a release, or a key that is dropped. -/
  | idle
  | erase
  | switch (index : Tid)
  | clear
  /-- The debugging aid that prints the line. -/
  | show
  | enter
  | char (ascii : UInt8)
  deriving DecidableEq

/-- The scan codes that only change the modifiers, or nothing. -/
def dropsScan (scan : Nat) (k : Kernel) : Bool :=
  ignoredScan scan k.altFlag ∨ scan = 29 ∨ scan = 157 ∨ scan = 56 ∨ scan = 184 ∨ scan = 42 ∨
    scan = 54 ∨ scan = 170 ∨ scan = 182 ∨ scan = 186 ∨ 120 ≤ scan

/-- The key of a press. -/
def pressedKey (scan : Nat) (past : UInt32) (k : Kernel) : Key :=
  let ascii := keyCode scan past k
  if ascii = keyBackspace then .erase
  else if k.altFlag ∧ ascii = tf1Key then .switch 0
  else if k.altFlag ∧ ascii = tf2Key then .switch 1
  else if k.altFlag ∧ ascii = tf3Key then .switch 2
  else if ascii = crl ∧ k.ctrlFlag then .clear
  else if ascii = dbh ∧ k.altFlag then .show
  else if ascii = keyReturn then .enter
  else .char ascii.toUInt8

/-- The key of a scan code. -/
def keyOf (scan : UInt8) (past : UInt32) (k : Kernel) : Key :=
  if dropsScan scan.toNat k then .idle else pressedKey scan.toNat past k

/-- The flags that a scan code changes besides those of its key. -/
def setModifiers (scan : Nat) (k : Kernel) : Kernel :=
  if ignoredScan scan k.altFlag then k
  else if scan = 29 then { k with ctrlFlag := true }
  else if scan = 157 then { k with ctrlFlag := false }
  else if scan = 56 then { k with altFlag := true }
  else if scan = 184 then { k with altFlag := false }
  else if scan = 42 ∨ scan = 54 then { k with shiftFlag := true }
  else if scan = 170 ∨ scan = 182 then { k with shiftFlag := false }
  else if scan = 186 then { k with capsFlag := !k.capsFlag }
  else k

/-- The flag of a switch key. -/
def setSwitchFlag (index : Tid) (k : Kernel) : Kernel :=
  match index with
  | 0 => { k with terminalZeroFlag := true }
  | 1 => { k with terminalOneFlag := true }
  | 2 => { k with terminalTwoFlag := true }

/-- What is done for a key.  While `enter_flag` is set, every key but control-L and the switch
keys is handed to `enter_press`. -/
def handleKey (key : Key) (k : Kernel) : Option Kernel :=
  match key with
  | .idle => if k.enterFlag then enterPress 0 k else some k
  | .erase =>
      let k := { k with backFlag := true }
      if k.enterFlag then enterPress keyBackspace.toUInt8 k
      else (deleteCharFromBuf k).bind deleteCharFromScreen
  | .switch index => swapTerminal index (setSwitchFlag index k)
  | .clear => (clear (clearbuf { k with ctrlFlagL := true })).bind initCursor
  | .show => do
      let k ← printBuf k
      if k.enterFlag then enterPress dbh.toUInt8 k else some k
  | .enter => enterPress keyReturn.toUInt8 { k with enterFlag := true }
  | .char ascii =>
      let k := { k with bufFlag := 3 }
      if k.enterFlag then enterPress ascii k
      else if ascii ≠ 0 then add2buf ascii k
      else some k

/-- No flag is left over from an earlier key. -/
structure NoKeyPending (k : Kernel) : Prop where
  bufFlag : k.bufFlag = 0
  backFlag : k.backFlag = false
  ctrlFlagL : k.ctrlFlagL = false
  terminalZeroFlag : k.terminalZeroFlag = false
  terminalOneFlag : k.terminalOneFlag = false
  terminalTwoFlag : k.terminalTwoFlag = false

theorem noKeyPending_resetFlags (k : Kernel) : NoKeyPending (resetFlags k) :=
  ⟨rfl, rfl, rfl, rfl, rfl, rfl⟩

theorem NoKeyPending.setModifiers {k : Kernel} (h : NoKeyPending k) (scan : Nat) :
    NoKeyPending (setModifiers scan k) := by
  unfold JuddOS.setModifiers
  split_ifs <;> exact ⟨h.1, h.2, h.3, h.4, h.5, h.6⟩

/-- A dropped key. -/
theorem translate_of_drops {scan : Nat} {k : Kernel} (past : UInt32)
    (h : dropsScan scan k = true) : translate scan past k = some (0, setModifiers scan k) := by
  unfold translate setModifiers
  rw [dropsScan, decide_eq_true_eq] at h
  split_ifs <;> try rfl
  rcases h with h | h
  · contradiction
  · omega

/-- Any other key. -/
theorem translate_of_press {scan : Nat} {k : Kernel} (past : UInt32)
    (h : dropsScan scan k = false) :
    translate scan past k = translatePress scan past k ∧ setModifiers scan k = k := by
  unfold translate setModifiers
  rw [dropsScan, decide_eq_false_iff_not] at h
  push Not at h
  obtain ⟨hignored, h29, h157, h56, h184, h42, h54, h170, h182, h186, hlow⟩ := h
  simp only [hignored, h29, h157, h56, h184, h42, h54, h170, h182, h186, hlow, if_false, if_true,
    or_self, Bool.false_eq_true, and_self]

theorem printBuf_frame {k k' : Kernel} (h : printBuf k = some k') :
    k' = { k with phys := k'.phys, screenX := k'.screenX, screenY := k'.screenY } := by
  rw [printBuf, Option.bind_eq_bind, Option.bind_eq_some_iff] at h
  obtain ⟨k₁, h₁, h₂⟩ := h
  have hloop := Support.forRange_preserves
    (fun k' => k' = { k with phys := k'.phys, screenX := k'.screenX, screenY := k'.screenY })
    (fun _ k₂ _ hk₂ hputc => by rw [putc_frame hputc, hk₂]) rfl h₁
  rw [putc_frame h₂, hloop]

theorem printBuf_undrawn {k k' : Kernel} (h : printBuf k = some k') : k'.undrawn = k.undrawn := by
  rw [printBuf_frame h]
  rfl

theorem initCursor_undrawn {k k' : Kernel} (h : initCursor k = some k') :
    k'.undrawn = k.undrawn := by
  refine forRange_undrawn (fun j k k' hbody => ?_) h
  exact (updateCursor_undrawn hbody).trans (setTerminal_undrawn k _ (by intro t; rfl))

/-- What the handler does after a press. -/
theorem dispatch_press {scan : Nat} {past : UInt32} {k : Kernel} (h : NoKeyPending k) :
    ((translatePress scan past k).bind fun p => dispatchKey p.1 p.2) =
      handleKey (pressedKey scan past k) k := by
  obtain ⟨hbuf, hback, hctrl, hzero, hone, htwo⟩ := h
  unfold translatePress pressedKey
  dsimp only
  split_ifs with h8 h1 h2 h3 hcrl hdbh hret
  · rw [h8]
    simp [dispatchKey, handleKey, hctrl, hzero, hone, htwo, hbuf]
  · simp [dispatchKey, handleKey, setSwitchFlag, hctrl]
  · simp [dispatchKey, handleKey, setSwitchFlag, hctrl, hzero]
  · simp [dispatchKey, handleKey, setSwitchFlag, hctrl, hzero, hone]
  · simp [dispatchKey, handleKey]
  · rw [hdbh.1, handleKey]
    cases hprint : printBuf k with
    | none => rfl
    | some k' =>
        -- printing leaves the flags alone
        rw [printBuf_frame hprint]
        simp [dispatchKey, hctrl, hzero, hone, htwo, hbuf, hback]
  · rw [hret]
    simp [dispatchKey, handleKey, hctrl, hzero, hone, htwo]
  · simp [dispatchKey, handleKey, hctrl, hzero, hone, htwo, hback]

/-- What the handler does after any other scan code. -/
theorem dispatch_idle {k : Kernel} (h : NoKeyPending k) : dispatchKey 0 k = handleKey .idle k := by
  obtain ⟨hbuf, hback, hctrl, hzero, hone, htwo⟩ := h
  simp [dispatchKey, handleKey, hbuf, hback, hctrl, hzero, hone, htwo]

/-- The key depends on the modifiers only. -/
theorem keyOf_congr {k k₁ : Kernel} (scan : UInt8) (past : UInt32)
    (hctrl : k.ctrlFlag = k₁.ctrlFlag) (halt : k.altFlag = k₁.altFlag)
    (hshift : k.shiftFlag = k₁.shiftFlag) (hcaps : k.capsFlag = k₁.capsFlag) :
    keyOf scan past k = keyOf scan past k₁ := by
  have hdrops : dropsScan scan.toNat k = dropsScan scan.toNat k₁ := by
    rw [dropsScan, dropsScan, halt]
  have hcode : keyCode scan.toNat past k = keyCode scan.toNat past k₁ := by
    rw [keyCode, keyCode, hctrl, halt, hshift, hcaps]
  rw [keyOf, keyOf, pressedKey, pressedKey, hdrops, hcode, halt, hctrl]

/-- **The handler, key by key.** -/
theorem keyboardHandlerMain_eq {k : Kernel} (scan : UInt8) (past : UInt32)
    (h : NoKeyPending k) :
    keyboardHandlerMain scan past k =
      (handleKey (keyOf scan past k) (setModifiers scan.toNat k)).map resetFlags := by
  unfold keyboardHandlerMain keyOf
  cases hdrop : dropsScan scan.toNat k with
  | true =>
      rw [translate_of_drops past hdrop, if_pos rfl, ← dispatch_idle (h.setModifiers _)]
      cases hd : dispatchKey 0 (setModifiers scan.toNat k) <;> simp [hd]
  | false =>
      obtain ⟨htranslate, hmod⟩ := translate_of_press past hdrop
      rw [htranslate, hmod, if_neg Bool.false_ne_true, ← dispatch_press h]
      cases translatePress scan.toNat past k with
      | none => rfl
      | some p => cases hd : dispatchKey p.1 p.2 <;> simp [hd]

/-- The flags are reset before the handler returns. -/
theorem keyboardHandlerMain_keys {scan : UInt8} {past : UInt32} {k k' : Kernel}
    (h : keyboardHandlerMain scan past k = some k') : NoKeyPending k' := by
  simp only [keyboardHandlerMain, Option.bind_eq_bind, Option.bind_eq_some_iff] at h
  obtain ⟨translated, -, k₁, -, hreset⟩ := h
  cases hreset
  exact noKeyPending_resetFlags k₁

end JuddOS
