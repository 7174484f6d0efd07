import JuddOS.Descriptors
import JuddOS.ExecuteProgram
import JuddOS.Strings

/-!
# The parse loops of `execute_setup`

`parseCommand` gives the two words that the loops find; here the loops run as the source has
them, over the index `i` and the arrays `fname` and `args` on the stack of `execute`.

* `parseLoop_some` and `parseLoop_none`: the loops terminate and store what `parseCommand` says.
* `parseCommand_eq`: the words in terms of the command.
* `parse_strips_spaces_iff`: the arguments are the rest of the line without its leading spaces
  exactly when the first word is not followed by two of them.
-/

namespace JuddOS

/-! ## The loops -/

/-- The variables of the parse loops. -/
structure ParseState where
  i : Nat
  sizeOfArgs : Nat
  fname : Buf
  args : Buf

/-- How the parse loops are left. -/
inductive ParseExit
  /-- `return -1` for a long name. -/
  | refused
  /-- `break`. -/
  | parsed (s : ParseState)

/-- The test at the head of both loops. -/
def atEnd (commandBuf : Buf) (commandLen i : Nat) : Bool :=
  i = commandLen ∨ endsCommand (commandBuf i)

/-- The inner `while(1)`; `none` when it is not left within the given number of iterations. -/
def argLoop (commandBuf : Buf) (commandLen : Nat) : Nat → ParseState → Option ParseState
  | 0, _ => none
  | n + 1, s =>
      if atEnd commandBuf commandLen s.i then some s
      else argLoop commandBuf commandLen n
        { s with
          args := Function.update s.args s.sizeOfArgs (commandBuf s.i)
          sizeOfArgs := s.sizeOfArgs + 1
          i := s.i + 1 }

/-- The outer `while(1)`. -/
def parseLoop (commandBuf : Buf) (commandLen : Nat) : Nat → ParseState → Option ParseExit
  | 0, _ => none
  | n + 1, s =>
      if atEnd commandBuf commandLen s.i then some (.parsed s)
      else if commandBuf s.i = chSpace then
        if s.i ≥ filenameSize then some .refused
        else (argLoop commandBuf commandLen n { s with i := s.i + 1 }).map .parsed
      else parseLoop commandBuf commandLen n
        { s with fname := Function.update s.fname s.i (commandBuf s.i), i := s.i + 1 }

/-- The state in which the loops start: `fname` and `args` have `command_len + 1` bytes, on a
stack that holds anything. -/
def parseStart (commandLen : Nat) (fname args : Buf) : ParseState where
  i := 0
  sizeOfArgs := 0
  fname := clearBytes fname (commandLen + 1)
  args := clearBytes args (commandLen + 1)

/-- The parse loops on a whole command.  They take at most `command_len + 1` iterations. -/
def setupParse (commandBuf fname args : Buf) : Option ParseExit :=
  parseLoop commandBuf (strlen commandBuf) (strlen commandBuf + 1)
    (parseStart (strlen commandBuf) fname args)

/-! ## What the loops store -/

/-- From index `i` on the command is `rest`. -/
structure Remaining (commandBuf : Buf) (commandLen i : Nat) (rest : List UInt8) : Prop where
  length_eq : i + rest.length = commandLen
  bytes : ∀ j, j < rest.length → commandBuf (i + j) = rest.getD j 0

namespace Remaining

variable {commandBuf : Buf} {commandLen i : Nat} {c : UInt8} {rest : List UInt8}

theorem atEnd_nil (h : Remaining commandBuf commandLen i []) :
    atEnd commandBuf commandLen i = true := by
  have hi := h.length_eq
  rw [List.length_nil, Nat.add_zero] at hi
  simp [atEnd, hi]

theorem head (h : Remaining commandBuf commandLen i (c :: rest)) : commandBuf i = c :=
  h.bytes 0 (Nat.succ_pos _)

theorem atEnd_cons (h : Remaining commandBuf commandLen i (c :: rest)) :
    atEnd commandBuf commandLen i = endsCommand c := by
  have hi := h.length_eq
  rw [List.length_cons] at hi
  have hne : i ≠ commandLen := by omega
  simp [atEnd, hne, h.head]

theorem tail (h : Remaining commandBuf commandLen i (c :: rest)) :
    Remaining commandBuf commandLen (i + 1) rest where
  length_eq := by
    rw [← h.length_eq, List.length_cons]
    omega
  bytes j hj := by
    have hbyte := h.bytes (j + 1) (Nat.succ_lt_succ hj)
    rw [Nat.add_right_comm, Nat.add_assoc]
    exact hbyte

end Remaining

/-- A command as a whole. -/
theorem remaining_cstring (commandBuf : Buf) :
    Remaining commandBuf (strlen commandBuf) 0 commandBuf.cstring where
  length_eq := by simp
  bytes j hj := by
    rw [cstring_length] at hj
    rw [Nat.zero_add, cstring_getD hj]

/-- The inner loop stores the rest of the line. -/
theorem argLoop_eq {commandBuf : Buf} {commandLen : Nat} {rest : List UInt8} {n : Nat}
    {s : ParseState} (h : Remaining commandBuf commandLen s.i rest) (hn : rest.length < n) :
    argLoop commandBuf commandLen n s = some
      { i := s.i + (parseArgs rest).length
        sizeOfArgs := s.sizeOfArgs + (parseArgs rest).length
        fname := s.fname
        args := memcpy s.args s.sizeOfArgs (Buf.ofList (parseArgs rest))
          (parseArgs rest).length } := by
  induction rest generalizing n s with
  | nil =>
      cases n with
      | zero => exact absurd hn (Nat.not_lt_zero _)
      | succ n =>
          rw [argLoop, h.atEnd_nil, if_pos rfl]
          simp [parseArgs]
  | cons c rest ih =>
      cases n with
      | zero => exact absurd hn (Nat.not_lt_zero _)
      | succ n =>
          rw [argLoop, h.atEnd_cons, parseArgs]
          by_cases hend : endsCommand c = true
          · rw [if_pos hend, if_pos hend]
            simp
          · rw [if_neg hend, if_neg hend, h.head, ih h.tail (Nat.lt_of_succ_lt_succ hn)]
            dsimp only
            rw [memcpy_update, List.length_cons]
            congr 2 <;> omega

/-- **The loops refuse** a command whose words `parseCommand` refuses. -/
theorem parseLoop_none {commandBuf : Buf} {commandLen : Nat} {rest : List UInt8} {n : Nat}
    {s : ParseState} (h : Remaining commandBuf commandLen s.i rest) (hn : rest.length < n)
    (hparse : parseCommand s.i rest = none) :
    parseLoop commandBuf commandLen n s = some .refused := by
  induction rest generalizing n s with
  | nil => cases hparse
  | cons c rest ih =>
      cases n with
      | zero => exact absurd hn (Nat.not_lt_zero _)
      | succ n =>
          rw [parseCommand] at hparse
          rw [parseLoop, h.atEnd_cons, h.head]
          by_cases hend : endsCommand c = true
          · rw [if_pos hend] at hparse
            cases hparse
          rw [if_neg hend] at hparse ⊢
          by_cases hspace : c = chSpace
          · rw [if_pos hspace] at hparse ⊢
            by_cases hlong : s.i ≥ filenameSize
            · rw [if_pos hlong]
            · rw [if_neg hlong] at hparse
              cases hparse
          · rw [if_neg hspace, Option.map_eq_none_iff] at hparse
            rw [if_neg hspace]
            exact ih h.tail (Nat.lt_of_succ_lt_succ hn) hparse

/-- **The loops store** the words that `parseCommand` finds. -/
theorem parseLoop_some {commandBuf : Buf} {commandLen : Nat} {rest fname args : List UInt8}
    {n : Nat} {s : ParseState} (h : Remaining commandBuf commandLen s.i rest)
    (hn : rest.length < n) (hparse : parseCommand s.i rest = some (fname, args)) :
    ∃ i, parseLoop commandBuf commandLen n s = some (.parsed
      { i := i
        sizeOfArgs := s.sizeOfArgs + args.length
        fname := memcpy s.fname s.i (Buf.ofList fname) fname.length
        args := memcpy s.args s.sizeOfArgs (Buf.ofList args) args.length }) := by
  induction rest generalizing n s fname with
  | nil =>
      cases n with
      | zero => exact absurd hn (Nat.not_lt_zero _)
      | succ n =>
          cases hparse
          rw [parseLoop, h.atEnd_nil, if_pos rfl]
          exact ⟨s.i, by simp⟩
  | cons c rest ih =>
      cases n with
      | zero => exact absurd hn (Nat.not_lt_zero _)
      | succ n =>
          have hn' := Nat.lt_of_succ_lt_succ hn
          rw [parseCommand] at hparse
          rw [parseLoop, h.atEnd_cons, h.head]
          by_cases hend : endsCommand c = true
          · rw [if_pos hend] at hparse ⊢
            cases hparse
            exact ⟨s.i, by simp⟩
          rw [if_neg hend] at hparse ⊢
          by_cases hspace : c = chSpace
          · rw [if_pos hspace] at hparse ⊢
            by_cases hlong : s.i ≥ filenameSize
            · rw [if_pos hlong] at hparse
              cases hparse
            rw [if_neg hlong] at hparse ⊢
            cases hparse
            rw [argLoop_eq (s := { s with i := s.i + 1 }) h.tail hn']
            exact ⟨_, by simp; rfl⟩
          · rw [if_neg hspace, Option.map_eq_some_iff] at hparse
            obtain ⟨⟨fname', args'⟩, hrest, heq⟩ := hparse
            cases heq
            rw [if_neg hspace]
            obtain ⟨i, hloop⟩ := ih
              (s := { s with fname := Function.update s.fname s.i c, i := s.i + 1 }) h.tail hn' hrest
            refine ⟨i, ?_⟩
            rw [hloop]
            dsimp only
            rw [memcpy_update]

/-! ## The words -/

/-- The command up to the first newline or carriage return. -/
def commandLine (command : List UInt8) : List UInt8 := command.takeWhile fun c => !endsCommand c

/-- The rest of the line after the first word. -/
def restOfLine (command : List UInt8) : List UInt8 :=
  (commandLine command).drop (firstWord command).length

/-- The rest of the line without its leading spaces. -/
def commandArgs (command : List UInt8) : List UInt8 :=
  (restOfLine command).dropWhile fun c => c == chSpace

/-- What the loops store in `args`: the rest of the line after one more character. -/
def storedArgs (command : List UInt8) : List UInt8 := (restOfLine command).tail

theorem parseArgs_eq (rest : List UInt8) : parseArgs rest = commandLine rest := by
  induction rest with
  | nil => rfl
  | cons c rest ih =>
      rw [parseArgs, commandLine, List.takeWhile_cons]
      by_cases hend : endsCommand c = true
      · simp [hend]
      · simp [hend, ih, commandLine]

/-- Nothing, or a space, comes after the first word of a line. -/
theorem restOfLine_cases (command : List UInt8) :
    restOfLine command = [] ∨ ∃ rest, restOfLine command = chSpace :: rest := by
  induction command with
  | nil => exact .inl rfl
  | cons c command ih =>
      unfold restOfLine commandLine firstWord at ih ⊢
      rw [List.takeWhile_cons, List.takeWhile_cons]
      by_cases hend : endsCommand c = true
      · left
        simp [hend]
      · by_cases hspace : c = chSpace
        · right
          rw [hspace] at hend ⊢
          simp [hend]
        · simpa [hend, hspace] using ih

/-- **The words that the loops find**: the first word, and the rest of the line after one more
character.  A first word of 32 bytes or more is refused if anything comes after it. -/
theorem parseCommand_eq (i : Nat) (command : List UInt8) :
    parseCommand i command =
      if restOfLine command ≠ [] ∧ filenameSize ≤ i + (firstWord command).length then none
      else some (firstWord command, storedArgs command) := by
  induction command generalizing i with
  | nil => rfl
  | cons c command ih =>
      rw [parseCommand]
      by_cases hend : endsCommand c = true
      · rw [if_pos hend]
        simp [storedArgs, restOfLine, commandLine, firstWord, hend]
      rw [if_neg hend]
      by_cases hspace : c = chSpace
      · subst hspace
        rw [if_pos rfl, parseArgs_eq]
        simp [storedArgs, restOfLine, commandLine, firstWord, hend]
      · rw [if_neg hspace, ih (i + 1)]
        have hfirst : firstWord (c :: command) = c :: firstWord command := by
          simp [firstWord, hend, hspace]
        have hline : commandLine (c :: command) = c :: commandLine command := by
          simp [commandLine, hend]
        have hrest : restOfLine (c :: command) = restOfLine command := by
          rw [restOfLine, hfirst, hline, List.length_cons, List.drop_succ_cons, restOfLine]
        rw [storedArgs, storedArgs, hrest, hfirst, List.length_cons]
        have hcount : i + 1 + (firstWord command).length =
            i + ((firstWord command).length + 1) := by
          omega
        rw [hcount]
        split <;> rfl

theorem parseCommand_snd {i : Nat} {command : List UInt8} {p : List UInt8 × List UInt8}
    (h : parseCommand i command = some p) : p.2 = storedArgs command := by
  rw [parseCommand_eq] at h
  split at h
  · cases h
  · cases h
    rfl

/-! ## Leading spaces -/

theorem commandLine_subset (command : List UInt8) {c : UInt8} (h : c ∈ commandLine command) :
    c ∈ command :=
  (List.takeWhile_sublist _).subset h

/-- **A command that is not refused** is parsed, and the arrays hold its words. -/
theorem parseLoop_words {commandBuf : Buf} (fname args : Buf)
    (hword : ¬ (restOfLine commandBuf.cstring ≠ [] ∧
      filenameSize ≤ (firstWord commandBuf.cstring).length)) {n : Nat}
    (hn : strlen commandBuf < n) :
    ∃ s, parseLoop commandBuf (strlen commandBuf) n (parseStart (strlen commandBuf) fname args) =
        some (.parsed s) ∧
      s.fname.cstring = firstWord commandBuf.cstring ∧
      s.args.cstring = storedArgs commandBuf.cstring ∧
      s.sizeOfArgs = (storedArgs commandBuf.cstring).length := by
  have hparse := parseCommand_eq 0 commandBuf.cstring
  rw [Nat.zero_add, if_neg hword] at hparse
  obtain ⟨i, hloop⟩ := parseLoop_some (n := n)
    (s := parseStart (strlen commandBuf) fname args) (remaining_cstring commandBuf)
    (by rwa [cstring_length]) hparse
  -- Both words are pieces of the command, so they fit the arrays and have no NUL.
  have hfits : ∀ (old : Buf) (l : List UInt8), l.length ≤ strlen commandBuf →
      (∀ c, c ∈ l → c ∈ commandBuf.cstring) →
      (memcpy (clearBytes old (strlen commandBuf + 1)) 0 (Buf.ofList l) l.length).cstring = l := by
    intro old l hlen hsub
    have hle := strlen_le commandBuf
    refine cstring_memcpy (by omega) (fun h => cstring_no_nul commandBuf (hsub 0 h)) ?_
    exact if_pos (by omega)
  have hlen := cstring_length commandBuf
  have hfirst : (firstWord commandBuf.cstring).length ≤ commandBuf.cstring.length :=
    (List.takeWhile_sublist _).length_le
  have hline : (commandLine commandBuf.cstring).length ≤ commandBuf.cstring.length :=
    (List.takeWhile_sublist _).length_le
  refine ⟨_, hloop, hfits fname _ (by omega) ?_, hfits args _ ?_ ?_, ?_⟩
  · exact fun c hc => (List.takeWhile_sublist _).subset hc
  · rw [storedArgs, restOfLine, List.length_tail, List.length_drop]
    omega
  · exact fun c hc => commandLine_subset _ (List.mem_of_mem_drop (List.mem_of_mem_tail hc))
  · simp [parseStart]

/-- The loops terminate, `fname` is the first word, and `args` and `size_of_args` are the rest of
the line without its leading spaces. -/
def ParsesStripped (commandBuf fname args : Buf) : Prop :=
  ∀ n, strlen commandBuf < n →
    ∃ s, parseLoop commandBuf (strlen commandBuf) n (parseStart (strlen commandBuf) fname args) =
        some (.parsed s) ∧
      s.fname.cstring = firstWord commandBuf.cstring ∧
      s.args.cstring = commandArgs commandBuf.cstring ∧
      s.sizeOfArgs = (commandArgs commandBuf.cstring).length

/-- One character is all the space there is after the first word. -/
theorem storedArgs_eq_iff (command : List UInt8) :
    storedArgs command = commandArgs command ↔ ¬ [chSpace, chSpace] <+: restOfLine command := by
  unfold storedArgs commandArgs
  rcases restOfLine_cases command with hnil | ⟨rest, hrest⟩
  · simp [hnil]
  rw [hrest]
  cases rest with
  | nil => simp
  | cons c rest =>
      by_cases hspace : c = chSpace
      · have hlen := (List.dropWhile_sublist (l := rest) fun c => c == chSpace).length_le
        have hne : c :: rest ≠ rest.dropWhile fun c => c == chSpace := by
          intro heq
          rw [← heq, List.length_cons] at hlen
          omega
        subst hspace
        simpa using hne
      · have hne : ¬ chSpace = c := fun h => hspace h.symm
        simp [hspace, hne]

/-- **The arguments lose all their leading spaces exactly when there is at most one.** -/
theorem parse_strips_spaces_iff (commandBuf fname args : Buf)
    (hword : (firstWord commandBuf.cstring).length < filenameSize) :
    ParsesStripped commandBuf fname args ↔
      ¬ [chSpace, chSpace] <+: restOfLine commandBuf.cstring := by
  have hshort : ¬ (restOfLine commandBuf.cstring ≠ [] ∧
      filenameSize ≤ (firstWord commandBuf.cstring).length) :=
    fun h => Nat.not_le_of_lt hword h.2
  rw [← storedArgs_eq_iff]
  constructor
  · intro hstripped
    obtain ⟨s, hloop, -, hargs, -⟩ := hstripped (strlen commandBuf + 1) (Nat.lt_succ_self _)
    obtain ⟨s', hloop', -, hargs', -⟩ :=
      parseLoop_words fname args hshort (Nat.lt_succ_self (strlen commandBuf))
    rw [hloop] at hloop'
    cases hloop'
    rw [← hargs', hargs]
  · intro heq n hn
    obtain ⟨s, hloop, hname, hargs, hsize⟩ := parseLoop_words fname args hshort hn
    rw [heq] at hargs hsize
    exact ⟨s, hloop, hname, hargs, hsize⟩

/-- `"ls x"`. -/
def commandOneSpace : List UInt8 := [0x6c, 0x73, 0x20, 0x78]

theorem parse_strips_one_space :
    ParsesStripped (Buf.ofList commandOneSpace) (fun _ => 0) fun _ => 0 := by
  have hcommand : (Buf.ofList commandOneSpace).cstring = commandOneSpace :=
    cstring_ofList (by decide) (by decide)
  refine (parse_strips_spaces_iff _ _ _ ?_).mpr ?_ <;> rw [hcommand] <;> decide

/-- `"ls  x"`. -/
def commandTwoSpaces : List UInt8 := [0x6c, 0x73, 0x20, 0x20, 0x78]

/-- The second space before the argument stays in `args`. -/
theorem parse_keeps_second_space :
    ¬ ∀ commandBuf fname args : Buf, strlen commandBuf < 2 ^ 32 →
      commandBuf 0 ≠ 0 ∧ commandBuf 0 ≠ chSpace ∧ commandBuf 0 ≠ chNewline ∧
        commandBuf 0 ≠ chReturn →
      (firstWord commandBuf.cstring).length < filenameSize →
      ParsesStripped commandBuf fname args := by
  intro hall
  have hcommand : (Buf.ofList commandTwoSpaces).cstring = commandTwoSpaces :=
    cstring_ofList (by decide) (by decide)
  have hlen : strlen (Buf.ofList commandTwoSpaces) = 5 := by
    rw [← cstring_length, hcommand]
    rfl
  have hword : (firstWord (Buf.ofList commandTwoSpaces).cstring).length < filenameSize := by
    rw [hcommand]
    decide
  obtain ⟨s, hloop, -, hargs, -⟩ := hall (Buf.ofList commandTwoSpaces) (fun _ => 0) (fun _ => 0)
    (by rw [hlen]; decide) (by decide) hword 6 (by rw [hlen]; decide)
  obtain ⟨s', hloop', -, hargs', -⟩ :=
    parseLoop_words (n := 6) (fun _ => 0) (fun _ => 0)
      (fun h => absurd h.2 (Nat.not_le_of_lt hword)) (by rw [hlen]; decide)
  rw [hloop] at hloop'
  cases hloop'
  rw [hargs, hcommand] at hargs'
  exact absurd hargs' (by decide)

end JuddOS
