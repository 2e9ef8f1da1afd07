import Mathlib.Data.FinEnum
import Mathlib.Tactic

/-!
The tokenizer of the shell.

A command is a string, a list of bytes without zeros. The words become arguments or the names of
files, the operators end a command. What the commands do is left out.
-/

namespace KernelModel.Shell

namespace Ascii

abbrev tab : UInt8 := 9
abbrev newline : UInt8 := 10
abbrev carriageReturn : UInt8 := 13
abbrev escape : UInt8 := 27
abbrev space : UInt8 := 32
abbrev quote : UInt8 := 34
abbrev dollar : UInt8 := 36
abbrev ampersand : UInt8 := 38
abbrev apostrophe : UInt8 := 39
abbrev semicolon : UInt8 := 59
abbrev less : UInt8 := 60
abbrev greater : UInt8 := 62
abbrev backslash : UInt8 := 92
abbrev e : UInt8 := 101
abbrev n : UInt8 := 110
abbrev r : UInt8 := 114
abbrev t : UInt8 := 116
abbrev x : UInt8 := 120
abbrev pipe : UInt8 := 124

end Ascii

/-- `COMMAND_PARSER_IS_WHITESPACE` -/
def isWhitespace (c : UInt8) : Bool :=
  c = Ascii.space ∨ c = Ascii.tab ∨ c = Ascii.carriageReturn

/-- `COMMAND_PARSER_IS_VALID_CHARACTER` -/
def isValidCharacter (c : UInt8) : Bool :=
  c ≠ 0 ∧ !isWhitespace c ∧ c ≠ Ascii.newline ∧ c ≠ Ascii.greater ∧ c ≠ Ascii.less ∧
    c ≠ Ascii.pipe ∧ c ≠ Ascii.ampersand ∧ c ≠ Ascii.semicolon

/-! ### Words -/

/-- The character after a backslash in quotes. -/
def controlSequence (c : UInt8) : Option UInt8 :=
  if c = Ascii.backslash ∨ c = Ascii.apostrophe ∨ c = Ascii.quote ∨ c = Ascii.dollar then some c
  else if c = Ascii.e then some Ascii.escape
  else if c = Ascii.n then some Ascii.newline
  else if c = Ascii.r then some Ascii.carriageReturn
  else if c = Ascii.t then some Ascii.tab
  else none

/-- The rest of a word after the first quote, and what is behind the last one; `none` is an
error. -/
def readQuoted : List UInt8 → Option (List UInt8 × List UInt8)
  | [] => none
  | c :: command =>
    if c = Ascii.quote then some ([], command)
    else if c = Ascii.dollar then none
    else if c = Ascii.backslash then
      match command with
      | [] => none
      | d :: command =>
        match controlSequence d, readQuoted command with
        | some d, some (str, rest) => some (d :: str, rest)
        | _, _ => none
    else
      match readQuoted command with
      | some (str, rest) => some (c :: str, rest)
      | none => none

/-- The characters that a backslash can stand before outside of quotes. -/
def isControl (c : UInt8) : Bool :=
  c = Ascii.backslash ∨ c = Ascii.greater ∨ c = Ascii.less ∨ c = Ascii.pipe ∨
    c = Ascii.ampersand ∨ c = Ascii.semicolon

/-- A word without quotes, and what is behind it. -/
def readPlain : List UInt8 → Option (List UInt8 × List UInt8)
  | [] => some ([], [])
  | c :: command =>
    if ¬isValidCharacter c then some ([], c :: command)
    else if c = Ascii.backslash then
      match command with
      | [] => none
      | d :: command =>
        match isControl d, readPlain command with
        | true, some (str, rest) => some (d :: str, rest)
        | _, _ => none
    else
      match readPlain command with
      | some (str, rest) => some (c :: str, rest)
      | none => none

section

variable (getVariable : List UInt8 → Option (List UInt8))

/-- One word; a variable that is not set is empty. -/
def readWord : List UInt8 → Option (List UInt8 × List UInt8)
  | [] => none
  | c :: command =>
    if c = Ascii.quote then readQuoted command
    else if isValidCharacter c then
      match readPlain (c :: command) with
      | some (str, rest) =>
        if str.head? = some Ascii.dollar then some ((getVariable str.tail).getD [], rest)
        else some (str, rest)
      | none => none
    else none

/-! ### Commands -/

/-- `COMMAND_PARSER_STATE_` -/
inductive State
  | arguments
  | operator
  | read
  | write
  | append
  deriving DecidableEq

inductive Token
  | argument (str : List UInt8)
  | read (str : List UInt8)
  | write (str : List UInt8)
  | append (str : List UInt8)
  | or
  | pipe
  | and
  | background
  | sequence
  deriving DecidableEq

/-- An operator at the front, with the state after it. -/
def takeOperator : List UInt8 → Option (State × List Token × List UInt8)
  | [] => none
  | c :: command =>
    let twice := command.head? = some c
    if c = Ascii.greater then
      if twice then some (.append, [], command.tail) else some (.write, [], command)
    else if c = Ascii.less then some (.read, [], command)
    else if c = Ascii.pipe then
      if twice then some (.arguments, [.or], command.tail) else some (.arguments, [.pipe], command)
    else if c = Ascii.ampersand then
      if twice then some (.arguments, [.and], command.tail)
      else some (.arguments, [.background], command)
    else if c = Ascii.semicolon ∨ c = Ascii.newline then some (.arguments, [.sequence], command)
    else none

/-- What a word is in a state, and the state after it. -/
def State.word (str : List UInt8) : State → Option (State × Token)
  | .arguments => some (.arguments, .argument str)
  | .operator => none
  | .read => some (.operator, .read str)
  | .write => some (.operator, .write str)
  | .append => some (.operator, .append str)

/-- The main loop of `shell_interpreter_execute`. A round takes a character at least. -/
def tokenizeFrom : ℕ → State → List UInt8 → Option (List Token)
  | 0, _, _ => none
  | _ + 1, _, [] => some []
  | n + 1, state, c :: command =>
    if isWhitespace c then tokenizeFrom n state command
    else
      match takeOperator (c :: command) with
      | some (state', tokens, command) =>
        if state = .arguments ∨ state = .operator then
          (tokenizeFrom n state' command).map (tokens ++ ·)
        else none
      | none =>
        match readWord getVariable (c :: command) with
        | none => none
        | some (str, command) =>
          match state.word str with
          | none => none
          | some (state, token) => (tokenizeFrom n state command).map (token :: ·)

/-- The tokens of a command, `none` where it is refused. -/
def tokenize (command : List UInt8) : Option (List Token) :=
  tokenizeFrom getVariable (command.length + 1) .arguments command

end

end KernelModel.Shell
