import KernelModel.Blocks
import KernelModel.Format

/-!
The line editor of the readline library, without a callback for autocompletion.

A character is read at a time. The line, the history and the escape sequence are kept in blocks; a
write that misses its block fails the call.
-/

namespace KernelModel.Readline

open Format (code codes)

inductive Event
  | none
  | line
  | cancel
  deriving DecidableEq

inductive SequenceState
  | none
  | init
  | csiParameters
  | csiIntermediate
  deriving DecidableEq

/-- The entries are strings, without their zeros. -/
structure History where
  data : Block (List UInt8)
  length : ℕ
  maxLength : ℕ

structure EscapeSequence where
  state : SequenceState
  length : ℕ
  data : Block UInt8

structure State where
  event : Event
  line : Block UInt8
  lineLength : ℕ
  echoInput : Bool
  history : History
  maxLineLength : ℕ
  cursor : ℕ
  historyIndex : ℕ
  lastCharacterCount : ℕ
  escapeSequence : EscapeSequence

def maxEscapeSequenceLength : ℕ := 16

/-- What the memory of a state holds before it is written. -/
structure Uninitialised where
  line : ℕ → UInt8
  history : ℕ → List UInt8
  sequence : ℕ → UInt8
  sequenceLength : ℕ

/-- `readline_state_init`; the size of the line is computed in 32 bits. -/
def readlineStateInit (memory : Uninitialised) (maxLineLength maxHistoryLength : ℕ) : State where
  event := .none
  line := ⟨(maxLineLength + 2) % 2 ^ 32, memory.line⟩
  lineLength := 0
  echoInput := true
  history := ⟨⟨maxHistoryLength, memory.history⟩, 0, maxHistoryLength⟩
  maxLineLength := maxLineLength
  cursor := 0
  historyIndex := 0
  lastCharacterCount := 0
  escapeSequence := ⟨.none, memory.sequenceLength, ⟨maxEscapeSequenceLength + 1, memory.sequence⟩⟩

/-- `readline_state_reset` -/
def readlineStateReset (s : State) : State :=
  { s with lineLength := 0, cursor := 0, historyIndex := 0, lastCharacterCount := 0 }

/-- The text of the line. -/
def State.text (s : State) : List UInt8 := s.line.text s.lineLength

/-! ### The line -/

/-- `_redraw_line`, less the text it prints. -/
def redrawLine (s : State) : State :=
  if s.echoInput then { s with lastCharacterCount := s.cursor } else s

/-- `_emit_character` -/
def emitCharacter (s : State) (c : UInt8) : Option State :=
  if s.lineLength ≥ s.maxLineLength then some s
  else do
    let line ← s.line.shiftUp s.cursor s.lineLength
    let line ← line.write s.cursor c
    some { s with line, lineLength := s.lineLength + 1, cursor := s.cursor + 1 }

/-- `_remove_character`, in a line that is not empty. -/
def removeCharacter (s : State) : Option State := do
  let line ← s.line.shiftDown (s.lineLength - 1) s.cursor
  some { s with line, lineLength := s.lineLength - 1 }

/-! ### The history -/

/-- Whether the entry starts with the text; its zero ends the comparison. -/
def History.startsWith (h : History) (i : ℕ) (text : List UInt8) : Bool :=
  text.isPrefixOf (h.data.data i ++ [0])

/-- `_expand_history` -/
def expandHistory (h : History) (line : Block UInt8) : Option History :=
  let length := (line.string.length + 1) % 2 ^ 32
  if length = 1 ∨ h.length ≠ 0 ∧ h.startsWith 0 (line.text length) then some h
  else do
    let newLength := if h.length = h.maxLength then h.length else h.length + 1
    let data ← h.data.shiftUp 0 (newLength - 1)
    let data ← data.write 0 ((line.text length).takeWhile (· ≠ 0))
    some { h with data, length := newLength }

/-- The entry at the index becomes the line. -/
def showHistory (s : State) : Option State := do
  let entry := s.history.data.data s.historyIndex
  let line ← s.line.copyInto 0 entry
  some (redrawLine { s with line, lineLength := entry.length, cursor := entry.length })

/-- The sequence `A` -/
def olderHistory (s : State) : Option State :=
  if s.history.length = 0 then some s
  else
    let index :=
      if s.historyIndex ≠ 0 ∨ s.lineLength ≠ 0 ∧ s.history.startsWith s.historyIndex s.text then
        s.historyIndex + 1
      else s.historyIndex
    if index ≥ s.history.length then some { s with historyIndex := s.history.length - 1 }
    else showHistory { s with historyIndex := index }

/-- The sequence `B` -/
def newerHistory (s : State) : Option State :=
  if s.history.length = 0 ∨ s.historyIndex = 0 then some s
  else showHistory { s with historyIndex := s.historyIndex - 1 }

/-! ### Characters -/

/-- `_process_csi_sequence`; a sequence that it does not know is only printed. -/
def processCsiSequence (s : State) : Option State :=
  let sequence := s.escapeSequence.data.string
  if sequence = codes "A" then olderHistory s
  else if sequence = codes "B" then newerHistory s
  else if sequence = codes "C" then
    if s.cursor < s.lineLength then some (redrawLine { s with cursor := s.cursor + 1 }) else some s
  else if sequence = codes "D" then
    if s.cursor ≠ 0 then some (redrawLine { s with cursor := s.cursor - 1 }) else some s
  else if sequence = codes "H" ∨ sequence = codes "1~" ∨ sequence = codes "7~" then
    if s.cursor ≠ 0 then some (redrawLine { s with cursor := 0 }) else some s
  else if sequence = codes "F" ∨ sequence = codes "4~" ∨ sequence = codes "8~" then
    if s.cursor < s.lineLength then some (redrawLine { s with cursor := s.lineLength }) else some s
  else if sequence = codes "3~" then
    if s.cursor < s.lineLength then (removeCharacter s).map redrawLine else some s
  else some s

/-- The end of a line. -/
def processNewline (s : State) : Option State := do
  let s := redrawLine { s with cursor := s.lineLength }
  let line ← s.line.write s.lineLength 0
  let history ← expandHistory s.history line
  let line ← line.write s.lineLength 10
  let lineLength := (s.lineLength + 1) % 2 ^ 32
  let line ← line.write lineLength 0
  some { s with line, history, lineLength, event := .line }

/-- A character outside of an escape sequence. -/
def processCharacter (s : State) (c : UInt8) : Option State :=
  if c = 0x03 then some { s with event := .cancel }
  else if c = 0x08 ∨ c = 0x7f then
    if s.cursor ≠ 0 then (removeCharacter { s with cursor := s.cursor - 1 }).map redrawLine
    else some s
  else if c = 0x09 then some s
  else if c = 0x0a ∨ c = 0x0d then processNewline s
  else if c = 0x1b then some { s with escapeSequence.state := .init }
  else (emitCharacter s c).map redrawLine

/-- A character is added to the escape sequence, which is in the given state then. -/
def extendSequence (s : State) (state : SequenceState) (c : UInt8) : Option State := do
  let data ← s.escapeSequence.data.write s.escapeSequence.length c
  some { s with escapeSequence := ⟨state, s.escapeSequence.length + 1, data⟩ }

/-- The last character of an escape sequence. -/
def finishSequence (s : State) (c : UInt8) : Option State := do
  let s ← extendSequence s s.escapeSequence.state c
  let data ← s.escapeSequence.data.write s.escapeSequence.length 0
  let s ← processCsiSequence { s with escapeSequence.data := data }
  some { s with escapeSequence.state := .none }

/-- The body of the loop in `readline_process`. -/
def processByte (s : State) (c : UInt8) : Option State :=
  let other := { s with escapeSequence.state := .none }
  let room := s.escapeSequence.length < maxEscapeSequenceLength
  match s.escapeSequence.state with
  | .none => processCharacter s c
  | .init =>
    if c = code '[' then
      some { s with escapeSequence := ⟨.csiParameters, 0, s.escapeSequence.data⟩ }
    else processCharacter other c
  | state =>
    if state = .csiParameters ∧ 0x30 ≤ c ∧ c ≤ 0x3f ∧ room then extendSequence s .csiParameters c
    else if 0x20 ≤ c ∧ c ≤ 0x2f ∧ room then extendSequence s .csiIntermediate c
    else if 0x40 ≤ c ∧ c ≤ 0x7e ∧ room then finishSequence s c
    else processCharacter other c

/-! ### Calls -/

/-- What a call does before it reads. -/
def startCall (s : State) : State :=
  { if s.event = .line then readlineStateReset s else s with event := .none }

/-- The loop of a call, with the number of characters that it reads. -/
def processLoop (s : State) : List UInt8 → Option (State × ℕ)
  | [] => some (s, 0)
  | c :: buffer => do
    let s ← processByte s c
    if s.event ≠ .none then some (s, 1)
    else (processLoop s buffer).map fun (s, n) => (s, n + 1)

/-- `readline_process` -/
def readlineProcess (s : State) (buffer : List UInt8) : Option (State × ℕ) :=
  processLoop (startCall s) buffer

/-- The line that a call returns. -/
def returned (s : State) : List (List UInt8) := if s.event = .line then [s.text] else []

/-- Calls until the characters are read, of which the next `n + 1` are handed to a call: the state,
the lines and what was not read in the end. -/
def calls (s : State) : List ℕ → List UInt8 → Option (State × List (List UInt8) × List UInt8)
  | [], stream => some (s, [], stream)
  | n :: cuts, stream =>
    if stream = [] then some (s, [], [])
    else do
      let (s, count) ← readlineProcess s (stream.take (n + 1))
      let (t, lines, rest) ← calls s cuts (stream.drop count)
      some (t, returned s ++ lines, rest)

end KernelModel.Readline
