import Mathlib.Data.List.Basic
import Mathlib.Tactic

/-!
The expressions of the GLSL parser.

`_parse_expression` reads an expression with two stacks, one of the operators that wait and one
of the values they wait for, and calls itself on what stands in parentheses. The index into the
tokens is what is left of them. The nodes of the tree, their types and the usage of the variables
are what the rest of the library makes of them.
-/

namespace KernelModel.Glsl.Expression

/-- `PARSER_EXPRESSION_STACK_SIZE` -/
def stackSize : ℕ := 256

/-- `GLSL_AST_NODE_MAX_ARG_COUNT` -/
def maxArgCount : ℕ := 7

/-! ### Operators -/

inductive Operator where
  | add | addAssign | and | dec | div | divAssign | equ | equal | geq | inc | inv | land | leq
  | less | lor | lsh | lshAssign | mod | modAssign | more | mul | mulAssign | neq | not | or
  | questionMark | rsh | rshAssign | sub | subAssign | xor
  deriving DecidableEq

/-- `glsl_operator_t`, with whether each of the two functions is there. -/
structure Entry where
  name : String
  unaryPrecedence : ℕ
  binaryPrecedence : ℕ
  unary : Bool
  binary : Bool

/-- `last_token_was_value?operator->binary_precedence:operator->unary_precedence` -/
def Entry.precedence (entry : Entry) (isBinary : Bool) : ℕ :=
  if isBinary then entry.binaryPrecedence else entry.unaryPrecedence

/-- `_glsl_operator_table` -/
def operatorTable : Operator → Entry
  | .add => ⟨"+", 2, 4, true, true⟩
  | .addAssign => ⟨"+=", 0, 15, false, true⟩
  | .and => ⟨"&", 0, 8, false, true⟩
  | .dec => ⟨"--", 0, 0, false, false⟩
  | .div => ⟨"/", 0, 3, false, true⟩
  | .divAssign => ⟨"/=", 0, 15, false, true⟩
  | .equ => ⟨"==", 0, 7, false, true⟩
  | .equal => ⟨"=", 0, 15, false, true⟩
  | .geq => ⟨">=", 0, 6, false, true⟩
  | .inc => ⟨"++", 0, 0, false, false⟩
  | .inv => ⟨"~", 2, 0, true, false⟩
  | .land => ⟨"&&", 0, 11, false, true⟩
  | .leq => ⟨"<=", 0, 6, false, true⟩
  | .less => ⟨"<", 0, 6, false, true⟩
  | .lor => ⟨"||", 0, 13, false, true⟩
  | .lsh => ⟨"<<", 0, 5, false, true⟩
  | .lshAssign => ⟨"<<=", 0, 15, false, true⟩
  | .mod => ⟨"%", 0, 3, false, true⟩
  | .modAssign => ⟨"%=", 0, 15, false, true⟩
  | .more => ⟨">", 0, 6, false, true⟩
  | .mul => ⟨"*", 0, 3, false, true⟩
  | .mulAssign => ⟨"*=", 0, 15, false, true⟩
  | .neq => ⟨"!=", 0, 7, false, true⟩
  | .not => ⟨"!", 2, 0, true, false⟩
  | .or => ⟨"|", 0, 10, false, true⟩
  | .questionMark => ⟨"?", 0, 0, false, false⟩
  | .rsh => ⟨">>", 0, 5, false, true⟩
  | .rshAssign => ⟨">>=", 0, 15, false, true⟩
  | .sub => ⟨"-", 2, 4, true, true⟩
  | .subAssign => ⟨"-=", 0, 15, false, true⟩
  | .xor => ⟨"^", 0, 9, false, true⟩

/-! ### Tokens -/

/-- The payload of a `CONST_BOOL`, a `CONST_INT` or a `CONST_FLOAT` token. -/
inductive Constant (φ : Type) where
  | bool (value : Bool)
  | int (value : UInt64)
  | float (value : φ)
  deriving DecidableEq

/-- `glsl_lexer_token_t`. The types that no branch of the parser names and that have no row in
the table of operators are one. -/
inductive Token (β φ : Type) where
  | leftParen
  | rightParen
  | comma
  | semicolon
  | period
  | struct
  | builtinType (type : β)
  | identifier (string : String)
  | constant (value : Constant φ)
  | operator (type : Operator)
  | other
  deriving DecidableEq

/-- The two values the parser is called with for `end_glsl_lexer_token_type`. -/
inductive Ending where
  | semicolon
  | rightParen

/-- The token ends the expression. -/
def Ending.closes {β φ : Type} : Ending → Bool → Token β φ → Bool
  | .semicolon, _, .semicolon => true
  | .rightParen, _, .rightParen => true
  | _, endOnComma, .comma => endOnComma
  | _, _, _ => false

/-! ### The tree -/

/-- `glsl_ast_type_t`, by its `type`. -/
inductive ValueType (β : Type) where
  | builtin (type : β)
  | struct
  | function
  deriving DecidableEq

inductive Error (β : Type) where
  | unimplemented
  | expected (what : String)
  | wrongApplication (operator kind : String)
  | invalidOperatorTypes (operator : String) (left right : ValueType β)
  | undefined (identifier : String)
  | stackOverflow
  | tooManyArguments
  | functionConstructor
  | constructorTooLong
  | invalidConstructor
  | memberNotFound (member : String)
  | swizzle (text : String)
  | disallowedOperation
  | uninitializedVar (name : String)
  | invalidLvalue
  deriving DecidableEq

/-- What the parser takes from the rest of the library. The flags of the variables, which the
functions of the operators read and change, are the usage. -/
structure Ast (β φ Node Usage : Type) where
  /-- `value_type` -/
  valueType : Node → ValueType β
  /-- `glsl_ast_lookup_var`, with the node that the parser makes of the variable -/
  lookupVar : String → Option Node
  constant : Constant φ → Node
  /-- the `binary` function of an operator, which returns a node, an error, or neither -/
  binary : Operator → Node → Node → Usage → Except (Error β) (Option Node × Usage)
  /-- the node of a constructor call, and `_check_constructor_type` -/
  constructorCall : β → List Node → Except (Error β) Node
  /-- `_glsl_internal_function_table_find` -/
  internalFunction : String → List Node → Option Node
  /-- `_calculate_member_type` -/
  member : Node → String → Except (Error β) Node

/-! ### The stacks -/

/-- `operator_stack_element_t` -/
structure StackElement where
  operator : Operator
  isBinary : Bool
  precedence : ℕ

/-- The two stacks of a call, their tops first, and `last_token_was_value`. -/
structure State (Node Usage : Type) where
  operators : List StackElement
  values : List Node
  lastTokenWasValue : Bool
  usage : Usage

variable {β φ Node Usage : Type}

def State.start (usage : Usage) : State Node Usage := ⟨[], [], false, usage⟩

/-- `last_token_was_value?"operator":"expression"` -/
def State.expects (state : State Node Usage) : String :=
  if state.lastTokenWasValue then "operator" else "expression"

/-- Put a value on its stack. The flag is left to the caller. -/
def State.push (state : State Node Usage) (value : Node) : Except (Error β) (State Node Usage) :=
  if state.values.length = stackSize then .error .stackOverflow
  else .ok { state with values := value :: state.values }

variable (ast : Ast β φ Node Usage)

/-- The body of the loop of `_process_operator_stack`, for the element it has taken off. -/
def apply (element : StackElement) (values : List Node) (usage : Usage) :
    Except (Error β) (List Node × Usage) :=
  if element.isBinary then
    match values with
    | right :: left :: values =>
      let mismatch : Error β := .invalidOperatorTypes (operatorTable element.operator).name
        (ast.valueType left) (ast.valueType right)
      match ast.valueType left, ast.valueType right with
      | .builtin _, .builtin _ =>
        match ast.binary element.operator left right usage with
        | .ok (some node, usage) => .ok (node :: values, usage)
        | .ok (none, _) => .error mismatch
        | .error e => .error e
      | _, _ => .error mismatch
    | _ => .error (.expected "expression")
  else
    match values with
    | [] => .error (.expected "expression")
    -- `_add_unary`, `_inv_unary`, `_not_unary` and `_sub_unary` only report this error
    | _ :: _ => .error .unimplemented

/-- `_process_operator_stack` -/
def processOperatorStack (precedence : ℕ) : List StackElement → List Node → Usage →
    Except (Error β) (List StackElement × List Node × Usage)
  | [], values, usage => .ok ([], values, usage)
  | element :: operators, values, usage =>
    if element.precedence < precedence then do
      let (values, usage) ← apply ast element values usage
      processOperatorStack precedence operators values usage
    else .ok (element :: operators, values, usage)

/-! ### Tokens that are read alone -/

/-- An identifier that no parenthesis follows. -/
def readVariable (name : String) (state : State Node Usage) :
    Except (Error β) (State Node Usage) :=
  if state.values.length = stackSize then .error .stackOverflow
  else
    match ast.lookupVar name with
    | none => .error (.undefined name)
    | some node =>
      .ok { state with values := node :: state.values, lastTokenWasValue := true }

def readConstant (value : Constant φ) (state : State Node Usage) :
    Except (Error β) (State Node Usage) := do
  let state ← state.push (ast.constant value)
  .ok { state with lastTokenWasValue := true }

def readMember (name : String) (state : State Node Usage) :
    Except (Error β) (State Node Usage) :=
  match state.values with
  -- the flag is set, so that there is a value
  | [] => .error (.expected "expression")
  | value :: values => do
    let node ← ast.member value name
    .ok { state with values := node :: values }

def readOperator (operator : Operator) (state : State Node Usage) :
    Except (Error β) (State Node Usage) :=
  let entry := operatorTable operator
  let isBinary := state.lastTokenWasValue
  if isBinary && !entry.binary then .error (.wrongApplication entry.name "binary expression")
  else if !isBinary && !entry.unary then .error (.wrongApplication entry.name "unary expression")
  else do
    let precedence := entry.precedence isBinary
    let (operators, values, usage) ←
      processOperatorStack ast precedence state.operators state.values state.usage
    if operators.length = stackSize then .error .stackOverflow
    else .ok ⟨⟨operator, isBinary, precedence⟩ :: operators, values, false, usage⟩

/-- What follows the loop. -/
def finish (state : State Node Usage) : Except (Error β) (Node × Usage) := do
  let (operators, values, usage) ←
    processOperatorStack ast 0xffffffff state.operators state.values state.usage
  match operators, values with
  | [], [value] => .ok (value, usage)
  | _, _ => .error (.expected "expression")

/-! ### The parser -/

/-- The parser reports an error, or the fuel of the model has run out. -/
inductive Failure (β : Type) where
  | outOfFuel
  | reported (error : Error β)
  deriving DecidableEq

def report {α : Type} (result : Except (Error β) α) : Except (Failure β) α :=
  result.mapError .reported

/-- An expression, the token that ended it and the tokens behind that. -/
structure Parsed (β φ Node Usage : Type) where
  value : Node
  closing : Token β φ
  tokens : List (Token β φ)
  usage : Usage
  deriving DecidableEq

/-- The arguments of a call and the tokens behind them. -/
structure Arguments (β φ Node Usage : Type) where
  values : List Node
  tokens : List (Token β φ)
  usage : Usage

mutual

/-- The loop of `_parse_expression`. -/
def parseLoop (ending : Ending) (endOnComma : Bool) : ℕ → List (Token β φ) →
    State Node Usage → Except (Failure β) (Parsed β φ Node Usage)
  | 0, _, _ => .error .outOfFuel
  | _ + 1, [], state => .error (.reported (.expected state.expects))
  | fuel + 1, token :: tokens, state =>
    if ending.closes endOnComma token then do
      let (value, usage) ← report (finish ast state)
      .ok ⟨value, token, tokens, usage⟩
    else
      match token with
      | .leftParen => do
        let inner ← parseLoop .rightParen false fuel tokens (.start state.usage)
        let state ← report (State.push { state with usage := inner.usage } inner.value)
        parseLoop ending endOnComma fuel inner.tokens state
      | .struct => .error (.reported .unimplemented)
      | .builtinType type =>
        match tokens with
        | .leftParen :: tokens =>
          if state.values.length = stackSize then .error (.reported .stackOverflow)
          else do
            let arguments ← parseArguments fuel tokens [] state.usage
            let node ← report (ast.constructorCall type arguments.values)
            parseLoop ending endOnComma fuel arguments.tokens
              { state with
                values := node :: state.values
                lastTokenWasValue := true
                usage := arguments.usage }
        | _ => .error (.reported (.expected "constructor arguments"))
      | .identifier name =>
        match tokens with
        | [] => .error (.reported (.expected "operator"))
        | .leftParen :: tokens => do
          let arguments ← parseArguments fuel tokens [] state.usage
          if 5 < name.length ∧ "__gl_".toList <+: name.toList then
            match ast.internalFunction name arguments.values with
            | none => .error (.reported .unimplemented)
            | some node => do
              let state ← report (State.push { state with usage := arguments.usage } node)
              parseLoop ending endOnComma fuel arguments.tokens
                { state with lastTokenWasValue := true }
          else .error (.reported .unimplemented)
        | tokens => do
          let state ← report (readVariable ast name state)
          parseLoop ending endOnComma fuel tokens state
      | .constant value => do
        let state ← report (readConstant ast value state)
        parseLoop ending endOnComma fuel tokens state
      | .period =>
        if state.lastTokenWasValue then
          match tokens with
          | .identifier name :: tokens => do
            let state ← report (readMember ast name state)
            parseLoop ending endOnComma fuel tokens state
          | _ => .error (.reported (.expected "member field"))
        else .error (.reported (.wrongApplication "." "expression"))
      | .operator type => do
        let state ← report (readOperator ast type state)
        parseLoop ending endOnComma fuel tokens state
      | .rightParen | .comma | .semicolon | .other =>
        .error (.reported (.expected state.expects))

/-- The loop over the arguments of a call or a constructor. -/
def parseArguments : ℕ → List (Token β φ) → List Node → Usage →
    Except (Failure β) (Arguments β φ Node Usage)
  | 0, _, _, _ => .error .outOfFuel
  | fuel + 1, tokens, arguments, usage =>
    if arguments.length = maxArgCount then .error (.reported .tooManyArguments)
    else do
      let argument ← parseLoop .rightParen true fuel tokens (.start usage)
      match argument.closing with
      | .rightParen => .ok ⟨arguments ++ [argument.value], argument.tokens, argument.usage⟩
      | _ => parseArguments fuel argument.tokens (arguments ++ [argument.value]) argument.usage

end

/-- `_parse_expression` -/
def parseExpression (ending : Ending) (endOnComma : Bool) (tokens : List (Token β φ))
    (usage : Usage) : Except (Failure β) (Parsed β φ Node Usage) :=
  parseLoop ast ending endOnComma (tokens.length + 1) tokens (.start usage)

end KernelModel.Glsl.Expression
