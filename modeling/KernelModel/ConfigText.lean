import KernelModel.ConfigTags

/-!
Configurations as text.

The state of the parser is the text that is left and the arrays that are open, the innermost
first. One round of the main loop reads one item: a name, a value after it, a bracket or a
comment.
-/

namespace KernelModel.Config

/-! ### Characters -/

/-- `CONFIG_TEXT_FILE_IS_WHITESPACE` -/
def isWhitespace (c : UInt8) : Bool :=
  c = 0 || c = byte ' ' || c = byte '\t' || c = byte '\n' || c = byte '\r'

/-- `CONFIG_TEXT_FILE_IS_NUMBER` -/
def isNumber (c : UInt8) : Bool := byte '0' ≤ c && c ≤ byte '9'

/-- `CONFIG_TEXT_FILE_IS_IDENTIFIER_START` -/
def isIdentifierStart (c : UInt8) : Bool :=
  (byte 'A' ≤ c && c ≤ byte 'Z') || (byte 'a' ≤ c && c ≤ byte 'z') || c = byte '_' ||
  c = byte '.' ||
    c = byte '$' || c = byte ':' || c = byte '/'

/-- `CONFIG_TEXT_FILE_IS_IDENTIFIER` -/
def isIdentifier (c : UInt8) : Bool := isIdentifierStart c || isNumber c || c = byte '-'

/-- Whitespace within a line. -/
def isBlank (c : UInt8) : Bool := c ≠ byte '\n' && isWhitespace c

/-! ### The parser -/

structure Parse where
  /-- The text from `data` to `end`. -/
  rest : List UInt8
  /-- The name and the tags of the array that is open, which `out` points to. -/
  name : List UInt8
  data : List Tag
  /-- The arrays around it. -/
  parents : List (List UInt8 × List Tag)
  /-- The brackets that were opened and closed. -/
  opened : ℕ
  closed : ℕ
  deriving Repr

/-- What one round of the main loop ends with. -/
inductive Round
  | next (s : Parse)
  /-- The end of the text: `out` is returned. -/
  | done (s : Parse)
  /-- An error is reported and NULL is returned. -/
  | null
  | panic
  | fault
  | spin
  deriving Repr

/-- `config_tag_attach` to the array that is open. -/
def Parse.attach (s : Parse) (tag : Tag) (rest : List UInt8) : Parse :=
  { s with
    data := s.data ++ [tag]
    rest := rest }

/-- A new array in the one that is open. -/
def Parse.openArray (s : Parse) (name rest : List UInt8) : Parse :=
  { s with
    rest := rest
    name := name
    data := []
    parents := (s.name, s.data) :: s.parents
    opened := s.opened + 1 }

/-- Back to the array around. -/
def Parse.closeArray (s : Parse) (rest : List UInt8) : Round :=
  match s.parents with
  | [] => .panic
  | (name, data) :: parents =>
    .next { s with
      rest := rest
      name := name
      data := data ++ [.array s.name s.data]
      parents := parents
      closed := s.closed + 1 }

/-- The loop over the digits of a number, which does not look where the text ends. -/
def readDigits (value : BitVec 64) : List UInt8 → Ends (BitVec 64 × List UInt8)
  | [] => .fault
  | c :: rest =>
    if isNumber c then readDigits (value * 10 + BitVec.ofNat 64 c.toNat - 48) rest
    else .ok (value, c :: rest)

/-- The text is a number so far. -/
def startsNumber : List UInt8 → Ends Bool
  | [] => .fault
  | c :: rest =>
    if isNumber c then .ok true
    else if c = byte '-' ∨ c = byte '+' then
      match rest with
      | [] => .fault
      | d :: _ => .ok (isNumber d)
    else .ok false

/-- The value of a number and the text after it, if it is one to the end. -/
def readNumber (rest : List UInt8) : Ends (Option (BitVec 64 × List UInt8)) :=
  match startsNumber rest with
  | .fault => .fault
  | .spin => .spin
  | .panic => .panic
  | .ok false => .ok none
  | .ok true =>
    let isNegative : Bool := rest.head? = some (byte '-')
    let digits := if isNegative ∨ rest.head? = some (byte '+') then rest.tail else rest
    match readDigits 0 digits with
    | .fault => .fault
    | .spin => .spin
    | .panic => .panic
    | .ok (_, []) => .fault
    | .ok (value, c :: rest') =>
      if c = 0 ∨ c = byte '\n' ∨ c = byte ',' ∨ c = byte '#' then
        .ok (some (if isNegative then -value else value, c :: rest'))
      else .ok none

/-- What stands for a character after a backslash. -/
def unescape (c : UInt8) : Option UInt8 :=
  if c = byte 't' then some 9
  else if c = byte 'n' then some 10
  else if c = byte 'r' then some 13
  else if c = byte 'b' then some 8
  else if c = byte 'v' then some 11
  else none

/-- What the loop over a quoted string ends with. -/
inductive Quoted
  | ok (buffer rest : List UInt8)
  | panic
  deriving DecidableEq, Repr

/-- The loop over a quoted string; it stops before the second quote. The buffer is made larger
for each character. -/
def readQuoted (buffer : List UInt8) : List UInt8 → Quoted
  | [] => .panic
  | c :: rest =>
    if c = byte '"' then .ok buffer (c :: rest)
    else if ¬Amm.Fits (buffer.length + 1) then .panic
    else if c ≠ byte '\\' then readQuoted (buffer ++ [c]) rest
    else
      match rest with
      | [] => .panic
      | e :: rest =>
        match unescape e with
        | some d => readQuoted (buffer ++ [d]) rest
        | none => .panic

/-- A string ends with its line, at a comment or at a comma. -/
def isStringEnd (c : UInt8) : Bool := c = byte '\n' || c = byte '#' || c = byte ','

/-- The bytes of a string without quotes. -/
def plainString (rest : List UInt8) : List UInt8 :=
  (rest.takeWhile fun c => !isStringEnd c).rdropWhile fun c => c = byte ' ' || c = byte '\t'

def parseQuoted (s : Parse) (name rest : List UInt8) : Round :=
  match readQuoted [] rest with
  | .panic => .panic
  | .ok buffer rest =>
    -- no buffer was allocated, and its length is looked for from NULL on
    if buffer = [] then .fault
    else if ¬Amm.Fits (9 + buffer.length) then .panic
    else .next (s.attach (.string name buffer) rest)

def parsePlain (s : Parse) (name rest : List UInt8) : Round :=
  match counted (rest.takeWhile fun c => !isStringEnd c).length with
  | .fault => .fault
  | .spin => .spin
  | .panic => .panic
  | .ok _ =>
    match smmAlloc rest (plainString rest).length with
    | .fault => .fault
    | .spin => .spin
    | .panic => .panic
    | .ok string => .next (s.attach (.string name string) (rest.drop (plainString rest).length))

/-- The value of a tag, or a tag without a name. -/
def parseValue (s : Parse) (name rest : List UInt8) : Round :=
  match rest with
  | [] => .next (s.attach (.none name) [])
  | c :: tail =>
    if c = byte '#' then
      .next { s with
        rest := rest.dropWhile (· ≠ byte '\n') }
    else if c = byte '{' then .next (s.openArray name tail)
    else
      match readNumber rest with
      | .fault => .fault
      | .spin => .spin
      | .panic => .panic
      | .ok (some (value, rest')) => .next (s.attach (.int name value) rest')
      | .ok none => if c = byte '"' then parseQuoted s name tail else parsePlain s name rest

/-- What comes after the name, which may be empty. -/
def parseNamed (s : Parse) (name rest : List UInt8) : Round :=
  match rest with
  | [] =>
    if name = [] then
      .next { s with
        rest := [] }
    else .next (s.attach (.none name) [])
  | c :: tail =>
    if c = byte ',' ∨ c = byte '\n' then
      if name = [] then
        .next { s with
          rest := rest }
      else .next (s.attach (.none name) rest)
    else if c = byte '}' then
      if name = [] then s.closeArray tail else (s.attach (.none name) rest).closeArray tail
    else if name ≠ [] ∨ c = byte '=' then
      if c ≠ byte '=' then .null else parseValue s name (tail.dropWhile isBlank)
    else parseValue s name rest

/-- One round of the main loop of `_parse_text_config`. -/
def parseRound (s : Parse) : Round :=
  match s.rest.dropWhile isWhitespace with
  | [] =>
    .done { s with
      rest := [] }
  | c :: tail =>
    if isIdentifierStart c then
      match counted ((c :: tail).takeWhile isIdentifier).length with
      | .fault => .fault
      | .spin => .spin
      | .panic => .panic
      | .ok n =>
        match smmAlloc (c :: tail) n with
        | .fault => .fault
        | .spin => .spin
        | .panic => .panic
        | .ok name => parseNamed s name (((c :: tail).drop n).dropWhile isBlank)
    else parseNamed s [] (c :: tail)

/-- The state before the loop: an array without a name. -/
def Parse.start (text : List UInt8) : Parse := ⟨text, [], [], [], 0, 0⟩

/-- The state after some rounds, if the loop goes on for so long. -/
def roundsFrom (s : Parse) : ℕ → Option Parse
  | 0 => some s
  | n + 1 =>
    match parseRound s with
    | .next s => roundsFrom s n
    | _ => none

/-! ### The printer -/

/-- `_save_level` -/
def saveLevel (level : ℕ) : List UInt8 := List.replicate level (byte '\t')

/-- The loop that prints a number into a buffer of 20 characters, from its end. -/
def printDigits : ℕ → BitVec 64 → List UInt8 → List UInt8
  | 0, _, buffer => buffer
  | i + 1, value, buffer =>
    let buffer := UInt8.ofBitVec ((value.srem 10 + 48).truncate 8) :: buffer
    if value.sdiv 10 ≠ 0 then printDigits i (value.sdiv 10) buffer else buffer

/-- The text of an integer. -/
def printInt (value : BitVec 64) : List UInt8 :=
  if value.slt 0 then byte '-' :: printDigits 20 (-value) [] else printDigits 20 value []

mutual

/-- `_save_text_tag`; there is no text where it panics. -/
def saveTextTag : Tag → ℕ → Option (List UInt8)
  | .none name, level => some (saveLevel level ++ name)
  | .array name data, level =>
    let head := saveLevel level ++ name ++ (if name ≠ [] then [byte '='] else []) ++ [byte '{']
    if data = [] then some (head ++ [byte '}'])
    else
      (saveTextTags data ((level + 1) % 2 ^ 32)).map fun text =>
        head ++ [byte '\n'] ++ text ++ saveLevel level ++ [byte '}']
  | .string _ _, _ => none
  | .int name value, level =>
    some (saveLevel level ++ name ++ (if name ≠ [] then [byte '='] else []) ++ printInt value)

/-- The tags of an array, each on its lines. -/
def saveTextTags : List Tag → ℕ → Option (List UInt8)
  | [], _ => some []
  | tag :: data, level =>
    (saveTextTag tag level).bind fun text =>
      (saveTextTags data level).map fun texts => text ++ [byte '\n'] ++ texts

end

/-- The text that `config_save_to_file` writes for an array. -/
def saveText (data : List Tag) : Option (List UInt8) := saveTextTags data 0

/-- `_parse_text_config` returns an array with these tags. -/
def ParsesTo (text : List UInt8) (tag : Tag) : Prop :=
  ∃ n s s', roundsFrom (Parse.start text) n = some s ∧ parseRound s = .done s' ∧
    tag = .array s'.name s'.data

end KernelModel.Config
