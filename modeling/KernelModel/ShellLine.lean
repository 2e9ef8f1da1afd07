import KernelModel.ShellRun

/-!
The grammar of the shell, and the meaning of a line.

A line is pipelines with connectors between them, a pipeline is commands with pipes between them. A
pipeline runs as a whole or not at all. Where no command has been written, as behind the separator
at the end of a line, nothing runs, and the value of the last pipeline that ran stays.
-/

namespace KernelModel.Shell

/-! ### Syntax -/

/-- A word as it is written. -/
inductive Word
  | text (str : List UInt8)
  | expansion (name : List UInt8)
  deriving DecidableEq

/-- What stands between two pipelines. -/
inductive Connector
  | or
  | and
  | background
  | sequence
  deriving DecidableEq

def Connector.token : Connector → Token
  | .or => .or
  | .and => .and
  | .background => .background
  | .sequence => .sequence

/-- A token as it is written. -/
inductive Lexeme
  | argument (word : Word)
  | read (word : Word)
  | write (word : Word)
  | append (word : Word)
  | pipe
  | connect (connector : Connector)
  deriving DecidableEq

def Token.lexeme : Token → Lexeme
  | .argument str => .argument (.text str)
  | .read str => .read (.text str)
  | .write str => .write (.text str)
  | .append str => .append (.text str)
  | .pipe => .pipe
  | .or => .connect .or
  | .and => .connect .and
  | .background => .connect .background
  | .sequence => .connect .sequence

def lexWord : List UInt8 → Option (Word × List UInt8)
  | [] => none
  | c :: command =>
    if c = Ascii.quote then (readQuoted command).map fun word => (.text word.1, word.2)
    else if isValidCharacter c then
      (readPlain (c :: command)).map fun word =>
        (if word.1.head? = some Ascii.dollar then .expansion word.1.tail else .text word.1, word.2)
    else none

def State.lexeme (word : Word) : State → Option (State × Lexeme)
  | .arguments => some (.arguments, .argument word)
  | .operator => none
  | .read => some (.operator, .read word)
  | .write => some (.operator, .write word)
  | .append => some (.operator, .append word)

def lexFrom : ℕ → State → List UInt8 → Option (List Lexeme)
  | 0, _, _ => none
  | _ + 1, _, [] => some []
  | n + 1, state, c :: command =>
    if isWhitespace c then lexFrom n state command
    else
      match takeOperator (c :: command) with
      | some (state', tokens, command) =>
        if state = .arguments ∨ state = .operator then
          (lexFrom n state' command).map (tokens.map Token.lexeme ++ ·)
        else none
      | none =>
        match lexWord (c :: command) with
        | none => none
        | some (word, command) =>
          match state.lexeme word with
          | none => none
          | some (state, lexeme) => (lexFrom n state command).map (lexeme :: ·)

/-- The tokens of a command before the variables have their values. -/
def lex (command : List UInt8) : Option (List Lexeme) :=
  lexFrom (command.length + 1) .arguments command

inductive Pipeline
  | command (c : Command Word)
  | pipe (c : Command Word) (rest : Pipeline)
  deriving DecidableEq

inductive Line
  | pipeline (p : Pipeline)
  | join (p : Pipeline) (connector : Connector) (rest : Line)
  deriving DecidableEq

/-- A command with a pipe in front of the first pipeline. -/
def Line.push (c : Command Word) : Line → Line
  | .pipeline p => .pipeline (.pipe c p)
  | .join p connector rest => .join (.pipe c p) connector rest

/-- The line whose first command has a number and has begun. -/
def parseFrom : ℕ → Command Word → List Lexeme → Line
  | _, c, [] => .pipeline (.command c)
  | index, c, .argument word :: lexemes =>
    parseFrom index { c with argv := c.argv ++ [word] } lexemes
  | index, c, .read word :: lexemes => parseFrom index { c with stdin := .read word } lexemes
  | index, c, .write word :: lexemes => parseFrom index { c with stdout := .write word } lexemes
  | index, c, .append word :: lexemes => parseFrom index { c with stdout := .append word } lexemes
  | index, c, .pipe :: lexemes =>
    (parseFrom (index + 1) ⟨[], .pipe index, .standard⟩ lexemes).push c
  | index, c, .connect connector :: lexemes =>
    .join (.command c) connector (parseFrom (index + 1) .create lexemes)

/-- The line that a command is, `none` where it has a syntax error. -/
def parse (command : List UInt8) : Option Line := (lex command).map (parseFrom 0 .create)

/-! ### Values of variables -/

def Word.expand (getVariable : List UInt8 → Option (List UInt8)) : Word → List UInt8
  | .text str => str
  | .expansion name => (getVariable name).getD []

def Stream.map {α β : Type} (f : α → β) : Stream α → Stream β
  | .standard => .standard
  | .read name => .read (f name)
  | .write name => .write (f name)
  | .append name => .append (f name)
  | .pipe index => .pipe index

def Command.map {α β : Type} (f : α → β) (c : Command α) : Command β :=
  ⟨c.argv.map f, c.stdin.map f, c.stdout.map f⟩

def Lexeme.token (getVariable : List UInt8 → Option (List UInt8)) : Lexeme → Token
  | .argument word => .argument (word.expand getVariable)
  | .read word => .read (word.expand getVariable)
  | .write word => .write (word.expand getVariable)
  | .append word => .append (word.expand getVariable)
  | .pipe => .pipe
  | .connect connector => connector.token

@[simp] lemma token_lexeme (getVariable : List UInt8 → Option (List UInt8)) (token : Token) :
    token.lexeme.token getVariable = token := by
  cases token <;> rfl

lemma readWord_eq (getVariable : List UInt8 → Option (List UInt8)) (command : List UInt8) :
    readWord getVariable command =
      (lexWord command).map fun word => (word.1.expand getVariable, word.2) := by
  rcases command with _ | ⟨c, command⟩
  · rfl
  · rw [readWord, lexWord]
    split_ifs with hquote hvalid
    · rcases readQuoted command with _ | word <;> rfl
    · rcases readPlain (c :: command) with _ | ⟨str, rest⟩
      · rfl
      · simp only [Option.map_some]
        split_ifs <;> rfl
    · rfl

lemma word_eq (getVariable : List UInt8 → Option (List UInt8)) (word : Word) (state : State) :
    state.word (word.expand getVariable) =
      (state.lexeme word).map fun next => (next.1, next.2.token getVariable) := by
  cases state <;> rfl

/-- The grammar has the tokens of the tokenizer, and the same syntax errors. -/
theorem tokenizeFrom_eq (getVariable : List UInt8 → Option (List UInt8)) (n : ℕ) (state : State)
    (command : List UInt8) :
    tokenizeFrom getVariable n state command =
      (lexFrom n state command).map (List.map (Lexeme.token getVariable)) := by
  induction n generalizing state command with
  | zero => rfl
  | succ n ih =>
    rcases command with _ | ⟨c, command⟩
    · rfl
    · rw [tokenizeFrom, lexFrom]
      by_cases hspace : isWhitespace c
      · simp only [if_pos hspace]
        exact ih state command
      · simp only [if_neg hspace]
        rcases takeOperator (c :: command) with _ | ⟨state', tokens, rest⟩
        · rw [readWord_eq]
          rcases lexWord (c :: command) with _ | ⟨word, rest⟩
          · rfl
          · simp only [Option.map_some, word_eq]
            rcases state.lexeme word with _ | ⟨state', lexeme⟩
            · rfl
            · simp only [Option.map_some, ih, Option.map_map]
              rfl
        · simp only [ih]
          split_ifs
          · have htokens : (tokens.map Token.lexeme).map (Lexeme.token getVariable) = tokens := by
              rw [List.map_map]
              exact List.map_id'' (token_lexeme getVariable) tokens
            simp only [Option.map_map]
            congr 1
            funext lexemes
            simp only [Function.comp_apply, List.map_append, htokens]
          · rfl

/-! ### The meaning of a line -/

/-- What has to be known to go on with a line: the number of its first command, the connector in
front of it, the value of the last pipeline that ran, the value of the last one before `;` and
whether the session is closed. -/
structure Status where
  index : ℕ
  before : Connector
  last : Int64
  value : Int64
  closed : Bool

def Connector.runs (last : Int64) : Connector → Bool
  | .or => last ≠ 0
  | .and => last = 0
  | .background => true
  | .sequence => true

/-- The first pipeline of a line runs. -/
def Status.runs (s : Status) : Bool := s.before.runs s.last

def Pipeline.length : Pipeline → ℕ
  | .command _ => 1
  | .pipe _ p => p.length + 1

/-- No command of a pipeline has a name. -/
def Pipeline.isEmpty : Pipeline → Bool
  | .command c => c.argv = []
  | .pipe c p => c.argv = [] && p.isEmpty

/-- What a command dispatches. -/
def Command.dispatches (index : ℕ) (wait : Bool) (c : Command (List UInt8)) : List Dispatch :=
  if c.argv = [] then [] else [⟨index, c, wait⟩]

section

variable (w : World)

def Command.expand (value : Int64) (c : Command Word) : Command (List UInt8) :=
  c.map (Word.expand (w.getVariable value))

/-- A command without a name behind the last pipe returns zero. -/
def Command.returnValue (index : ℕ) (c : Command Word) : Int64 :=
  if c.argv = [] then 0 else (w.target index).returnValue true

def Command.closes (index : ℕ) (c : Command Word) : Bool :=
  c.argv ≠ [] ∧ (w.target index).closesSession

namespace Pipeline

/-- The commands of a pipeline in order. All but the last one write to a pipe, and only the last one
can be waited for. -/
def dispatches (value : Int64) (wait : Bool) : ℕ → Pipeline → List Dispatch
  | index, .command c => (c.expand w value).dispatches index wait
  | index, .pipe c p =>
    Command.dispatches index false { c.expand w value with stdout := .pipe index } ++
      p.dispatches value wait (index + 1)

/-- The value of the last command. -/
def returnValue : ℕ → Pipeline → Int64
  | index, .command c => c.returnValue w index
  | index, .pipe _ p => p.returnValue (index + 1)

def closes : ℕ → Pipeline → Bool
  | index, .command c => c.closes w index
  | index, .pipe c p => c.closes w index || p.closes (index + 1)

end Pipeline

/-- The status after a pipeline, with the value that the last pipeline returned. -/
def Status.after (s : Status) (p : Pipeline) (connector : Connector) (last : Int64)
    (closed : Bool) : Status where
  index := s.index + p.length
  before := connector
  last := last
  value := if connector = .sequence then last else s.value
  closed := closed

/-- The value of the last pipeline that ran, when a pipeline has run that was waited for. -/
def Status.result (s : Status) (p : Pipeline) : Int64 :=
  if p.isEmpty then s.last else p.returnValue w s.index

/-- A pipeline has run. What runs in the background returns zero. -/
def Status.ran (s : Status) (p : Pipeline) (connector : Connector) : Status :=
  s.after p connector
    (if connector = .background ∧ ¬p.isEmpty then 0 else s.result w p)
    (s.closed || p.closes w s.index)

def Status.skipped (s : Status) (p : Pipeline) (connector : Connector) : Status :=
  s.after p connector s.last s.closed

/-- The commands that a line runs, and its value. The line ends where the session is closed after
a pipeline that is waited for. -/
def Line.reference : Line → Status → List Dispatch × Int64
  | .pipeline p, s =>
    if s.runs then (p.dispatches w s.value true s.index, s.result w p) else ([], s.last)
  | .join p connector rest, s =>
    if s.runs then
      if connector ≠ .background ∧ (s.ran w p connector).closed then
        (p.dispatches w s.value true s.index, s.result w p)
      else
        (p.dispatches w s.value (connector ≠ .background) s.index ++
            (rest.reference (s.ran w p connector)).1,
          (rest.reference (s.ran w p connector)).2)
    else rest.reference (s.skipped p connector)

/-- The pipelines that are skipped have one command. Where a pipeline is to run and be waited for,
one of its commands has a name or the last value is zero. -/
def Line.Clean : Line → Status → Prop
  | .pipeline p, s => if s.runs then p.isEmpty → s.last = 0 else p.length = 1
  | .join p connector rest, s =>
    if s.runs then
      (connector ≠ .background → p.isEmpty → s.last = 0) ∧
        (connector ≠ .background ∧ (s.ran w p connector).closed ∨
          rest.Clean (s.ran w p connector))
    else p.length = 1 ∧ rest.Clean (s.skipped p connector)

end

/-- All commands of a pipeline have names. -/
def Pipeline.Named : Pipeline → Prop
  | .command c => c.argv ≠ []
  | .pipe c p => c.argv ≠ [] ∧ p.Named

/-- All commands of a line have names, but there may be none behind the last connector. -/
def Line.Complete : Line → Prop
  | .pipeline p => p.length = 1 ∨ p.Named
  | .join p _ rest => p.Named ∧ rest.Complete

end KernelModel.Shell
