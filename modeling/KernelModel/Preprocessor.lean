import Mathlib.Data.List.TakeDrop
import Mathlib.Tactic

/-!
The GLSL preprocessor.

A source is read line by line: a directive changes the macros or the numbers of the lines, and
the other lines are copied in slices, with the macros in between replaced. The pointers into the
source are what is left of it.
-/

namespace KernelModel.Glsl.Preprocessor

abbrev Text := List UInt8

def newline : UInt8 := 0x0a

/-- The bytes of a string of the source. -/
def ascii (s : String) : Text := s.toList.map fun c => .ofNat c.toNat

/-- `src[0]`, which is zero at the end of the source. -/
def head (src : Text) : UInt8 := src.headD 0

/-! ### Characters -/

def isWhitespace (c : UInt8) : Bool :=
  c == 0x20 || c == 0x09 || c == newline || c == 0x0d || c == 0x0b
def isOctDigit (c : UInt8) : Bool := 0x30 ≤ c && c ≤ 0x37
def isDigit (c : UInt8) : Bool := 0x30 ≤ c && c ≤ 0x39

def isHexDigit (c : UInt8) : Bool :=
  isDigit c || (0x41 ≤ c && c ≤ 0x46) || (0x61 ≤ c && c ≤ 0x66)

def isIdentifierStart (c : UInt8) : Bool :=
  (0x41 ≤ c && c ≤ 0x5a) || (0x61 ≤ c && c ≤ 0x7a) || c == 0x5f

def isIdentifier (c : UInt8) : Bool := isIdentifierStart c || isDigit c

/-- `src[0]!='\n'&&LEXER_IS_WHITESPACE(src[0])` -/
def isBlank (c : UInt8) : Bool := c != newline && isWhitespace c

/-! ### The state -/

/-- `glsl_preprocessor_line_t` -/
structure Line where
  offset : ℕ
  line : ℕ
  file : ℕ
  deriving DecidableEq

/-- `glsl_preprocessor_macro_t` -/
structure Macro where
  identifier : Text
  value : Text
  deriving DecidableEq

/-- `glsl_preprocessor_state_t`. The last field is not one of the source: no write was outside
of the allocated memory. -/
structure State where
  data : Text
  capacity : ℕ
  lines : List Line
  macros : List Macro
  inside : Bool
  deriving DecidableEq

def stateInit : State := ⟨[], 0, [], [], true⟩

def State.length (s : State) : ℕ := s.data.length

def stateBufferGrowthSize : ℕ := 256

inductive Error
  | lexerDigitExpected (c : UInt8) (base : ℕ)
  | parserExpected (what : String)
  | wrongVersionPlacement
  | invalidVersion (version : ℕ)
  | invalidProfile (profile : Text)
  | alreadyDefined (identifier : Text)
  | unknownDirective (directive : Text)
  | unimplemented
  deriving DecidableEq

/-! ### Emitting -/

/-- `_emit_string`, of a string in memory. A length of `0` stands for the length of the string. -/
def emitString (s : State) (buffer : Text) (length : ℕ) : State :=
  let length := length % 2 ^ 32
  let length := if length = 0 then buffer.length % 2 ^ 32 else length
  let capacity :=
    if (s.capacity + 2 ^ 32 - s.length) % 2 ^ 32 < length then
      (s.length + length + stateBufferGrowthSize) % 2 ^ 32 / stateBufferGrowthSize *
        stateBufferGrowthSize
    else s.capacity
  { s with
    data := s.data ++ buffer.take length
    capacity := capacity
    inside := s.inside && decide (s.length + length < capacity) }

def emitChar (s : State) (c : UInt8) : State := emitString s [c] 1

def emitLine (s : State) (line file : ℕ) : State :=
  { s with lines := s.lines ++ [⟨s.length, line % 2 ^ 32, file % 2 ^ 32⟩] }

/-! ### Words and numbers -/

def beginsWithWord (src word : Text) : Option Text :=
  let rest := src.drop word.length
  if word.isPrefixOf src ∧ (rest = [] ∨ isWhitespace (head rest)) then some rest else none

/-- The digits of a number, up to the end of the identifier. -/
def parseDigits (ok : UInt8 → Bool) (digit : UInt8 → ℕ) (base value : ℕ) :
    Text → Except Error (ℕ × Text)
  | [] => .ok (value, [])
  | c :: src =>
    if isIdentifier c then
      if ok c then parseDigits ok digit base ((value * base + digit c) % 2 ^ 64) src
      else .error (.lexerDigitExpected c base)
    else .ok (value, c :: src)

def decDigit (c : UInt8) : ℕ := c.toNat - 48

def hexDigit (c : UInt8) : ℕ :=
  c.toNat - if isDigit c then 48 else if 0x61 ≤ c then 87 else 55

def parseInt (src : Text) : Except Error (ℕ × Text) :=
  if head src ≠ 0x30 then
    if isDigit (head src) then parseDigits isDigit decDigit 10 0 src
    else .error (.lexerDigitExpected (head src) 10)
  else
    let src := src.tail
    if head src ≠ 0x78 ∧ head src ≠ 0x58 then parseDigits isOctDigit decDigit 8 0 src
    else
      let src := src.tail
      if isHexDigit (head src) then parseDigits isHexDigit hexDigit 16 0 src
      else .error (.lexerDigitExpected (head src) 16)

/-! ### Macros -/

def findMacro (s : State) (identifier : Text) : Option Text :=
  (s.macros.find? fun m => m.identifier = identifier).map Macro.value

def createMacro (s : State) (identifier value : Text) : State :=
  { s with macros := s.macros ++ [⟨identifier, value⟩] }

/-- `_delete_macro`: the last macro takes the place of the deleted one. -/
def deleteMacro (s : State) (identifier : Text) : State :=
  let i := s.macros.findIdx fun m => m.identifier = identifier
  match s.macros.getLast? with
  | some last =>
    if i < s.macros.length then { s with macros := (s.macros.set i last).dropLast } else s
  | none => s

/-! ### Directives -/

def glslGetVersion : ℕ := 330

def skipBlanks (src : Text) : Text := src.dropWhile isBlank
def skipLine (src : Text) : Text := src.dropWhile (· ≠ newline)

def parseVersion (src : Text) : Except Error Text := do
  let src := skipBlanks src
  if ¬isDigit (head src) then .error (.parserExpected "version")
  else
    let (version, src) ← parseInt src
    if version ≠ glslGetVersion then .error (.invalidVersion (version % 2 ^ 32))
    else
      let src := skipBlanks src
      if head src = newline then .ok src
      else
        match beginsWithWord src (ascii "core") with
        | some src => .ok src
        | none => .error (.invalidProfile (src.takeWhile isIdentifier))

def parseDefine (s : State) (src : Text) : Except Error (State × Text) :=
  let src := skipBlanks src
  if ¬isIdentifierStart (head src) then .error (.parserExpected "macro name")
  else
    let identifier := src.takeWhile isIdentifier
    let src := skipBlanks (src.dropWhile isIdentifier)
    if head src = 0x28 then .error .unimplemented
    else if (findMacro s identifier).isSome then .error (.alreadyDefined identifier)
    else
      .ok (createMacro s identifier (src.takeWhile (· ≠ newline)), skipLine src)

def parseUndef (s : State) (src : Text) : Except Error (State × Text) :=
  let src := skipBlanks src
  if ¬isIdentifierStart (head src) then .error (.parserExpected "macro name")
  else .ok (deleteMacro s (src.takeWhile isIdentifier), src.dropWhile isIdentifier)

def parseLine (s : State) (src : Text) : Except Error (State × Text) := do
  let src := skipBlanks src
  if ¬isDigit (head src) then .error (.parserExpected "line number")
  else
    let (lineNumber, src) ← parseInt src
    let src := skipBlanks src
    let file := (s.lines.getLast?.map Line.file).getD 0
    if head src = newline then .ok (emitLine s lineNumber file, src)
    else if ¬isDigit (head src) then .error (.parserExpected "file number")
    else
      let (fileNumber, src) ← parseInt src
      .ok (emitLine s lineNumber fileNumber, src)

/-- The directives that are recognized but not supported. -/
def unsupported : List Text :=
  ["if", "ifdef", "ifndef", "else", "elif", "endif", "error", "pragma", "extension"].map
    ascii

/-- A directive, from its name on. -/
def directive (s : State) (isFirst : Bool) (src : Text) : Except Error (State × Text) :=
  if let some src := beginsWithWord src (ascii "version") then
    if isFirst then (parseVersion src).map fun src => (s, src) else .error .wrongVersionPlacement
  else if let some src := beginsWithWord src (ascii "define") then parseDefine s src
  else if let some src := beginsWithWord src (ascii "undef") then parseUndef s src
  else if unsupported.any fun word => (beginsWithWord src word).isSome then
    .error .unimplemented
  else if let some src := beginsWithWord src (ascii "line") then parseLine s src
  else .error (.unknownDirective (src.takeWhile isIdentifier))

/-! ### Files -/

/-- The text between two pointers. -/
def slice (start src : Text) : Text := start.take (start.length - src.length)

def emitMissingNewlines (s : State) (lineStart src : Text) : State :=
  (slice lineStart src).foldl (fun s c => if c = newline then emitChar s newline else s) s

/-- The loop over a line of text, with fuel: the state, the end of what was copied, and the end
of the line. -/
def textLine : ℕ → State → Text → Text → State × Text × Text
  | 0, s, lineStart, src => (s, lineStart, src)
  | fuel + 1, s, lineStart, src =>
    match src with
    | [] => (s, lineStart, [])
    | c :: rest =>
      if c = newline then (s, lineStart, c :: rest)
      else if isIdentifierStart c then
        let identifier := c :: rest
        let src := rest.dropWhile isIdentifier
        match findMacro s (slice identifier src) with
        | some value =>
          let s := emitString s lineStart (slice lineStart identifier).length
          textLine fuel (emitString s value 0) src src
        | none => textLine fuel s lineStart src
      else textLine fuel s lineStart rest

/-- The loop of `glsl_preprocessor_add_file`, with fuel. -/
def addFileLoop : ℕ → State → Bool → Text → Option (Except Error State)
  | 0, _, _, _ => none
  | fuel + 1, s, isFirst, lineStart =>
    match lineStart.dropWhile isWhitespace with
    | [] => some (.ok (emitChar s newline))
    | c :: src =>
      if c = 0x23 then
        let src := skipBlanks src
        if src = [] ∨ head src = newline then
          addFileLoop fuel (emitMissingNewlines s lineStart src) isFirst src
        else
          match directive s isFirst src with
          | .error e => some (.error e)
          | .ok (s, src) =>
            let src := skipLine src
            addFileLoop fuel (emitMissingNewlines s lineStart src) false src
      else
        let (s, lineStart, src) := textLine (c :: src).length s lineStart (c :: src)
        addFileLoop fuel (emitString s lineStart (slice lineStart src).length) false src

def addFile (s : State) (src : Text) (index : ℕ) : Option (Except Error State) :=
  addFileLoop (src.length + 1) (emitLine s 1 index) true src

/-- `glsl_preprocessor_get_location`: the file and the line of an offset. The newlines behind the
offset of the last entry are counted. -/
def getLocation (s : State) (offset : ℕ) : Option (ℕ × ℕ) :=
  if s.lines = [] ∨ s.length ≤ offset then none
  else
    let i := (s.lines.tail.takeWhile fun l => l.offset ≤ offset).length
    s.lines[i]?.map fun l =>
      (l.file, (l.line + ((s.data.take (offset + 1)).drop (l.offset + 1)).count newline) % 2 ^ 32)

end KernelModel.Glsl.Preprocessor
