import KernelModel.GlslExpression

/-!
Printed expressions and what the parser makes of them.

A tree is printed with the parentheses that its precedences require. The parser goes through such
a text operand by operand, so that the tree itself can be read instead of its tokens.
-/

namespace KernelModel.Glsl.Expression

variable {β φ Node Usage : Type}

/-! ### Trees -/

/-- The operators with a `binary` function. -/
def BinaryOperator : Type := { operator : Operator // (operatorTable operator).binary = true }

def BinaryOperator.precedence (operator : BinaryOperator) : ℕ :=
  (operatorTable operator.1).binaryPrecedence

/-- The precedence of the assignments, which group to the right. -/
def assignPrecedence : ℕ := 15

inductive Tree (φ : Type) where
  | var (name : String)
  | const (value : Constant φ)
  | binary (operator : BinaryOperator) (left right : Tree φ)

namespace Tree

def precedence : Tree φ → ℕ
  | .binary operator _ _ => operator.precedence
  | _ => 0

/-- A left operand needs parentheses. -/
def leftParens (operator : BinaryOperator) (left : Tree φ) : Bool :=
  operator.precedence < left.precedence ||
    (left.precedence = operator.precedence && operator.precedence = assignPrecedence)

/-- A right operand needs parentheses. -/
def rightParens (operator : BinaryOperator) (right : Tree φ) : Bool :=
  operator.precedence < right.precedence ||
    (right.precedence = operator.precedence && operator.precedence ≠ assignPrecedence)

/-- Put tokens into parentheses where they are needed. -/
def enclose (parens : Bool) (tokens : List (Token β φ)) : List (Token β φ) :=
  if parens then .leftParen :: (tokens ++ [.rightParen]) else tokens

/-- **The text of a tree**, with the parentheses it needs. -/
def tokens : Tree φ → List (Token β φ)
  | .var name => [.identifier name]
  | .const value => [.constant value]
  | .binary operator left right =>
    enclose (leftParens operator left) left.tokens ++
      .operator operator.1 :: enclose (rightParens operator right) right.tokens

end Tree

variable (ast : Ast β φ Node Usage)

/-- The node of an operator over two nodes, when their types allow it. -/
def combine (operator : BinaryOperator) (left right : Node) (usage : Usage) :
    Option (Node × Usage) :=
  match ast.valueType left, ast.valueType right with
  | .builtin _, .builtin _ =>
    match ast.binary operator.1 left right usage with
    | .ok (some node, usage) => some (node, usage)
    | _ => none
  | _, _ => none

/-- **The node of a tree**, when its variables are declared and its types fit. -/
def Tree.build : Tree φ → Usage → Option (Node × Usage)
  | .var name, usage => (ast.lookupVar name).map (·, usage)
  | .const value, usage => some (ast.constant value, usage)
  | .binary operator left right, usage => do
    let (left, usage) ← left.build usage
    let (right, usage) ← right.build usage
    combine ast operator left right usage

/-! ### Reading a tree -/

/-- Read an operand, which the parser calls itself on when it stands in parentheses. -/
def readOperand (parens : Bool)
    (read : State Node Usage → Except (Error β) (State Node Usage)) (state : State Node Usage) :
    Except (Error β) (State Node Usage) :=
  if parens then do
    let inner ← read (.start state.usage)
    let (value, usage) ← finish ast inner
    State.push { state with usage := usage } value
  else read state

/-- The parser on the text of a tree. -/
def Tree.read : Tree φ → State Node Usage → Except (Error β) (State Node Usage)
  | .var name, state => readVariable ast name state
  | .const value, state => readConstant ast value state
  | .binary operator left right, state => do
    let state ← readOperand ast (leftParens operator left) left.read state
    let state ← readOperator ast operator.1 state
    readOperand ast (rightParens operator right) right.read state

@[simp] lemma report_ok {α : Type} (a : α) : report (.ok a : Except (Error β) α) = .ok a := rfl

@[simp] lemma report_error {α : Type} (e : Error β) :
    report (.error e : Except (Error β) α) = .error (.reported e) := rfl

@[simp] lemma bind_error {ε α γ : Type} (e : ε) (f : α → Except ε γ) :
    (Except.error e >>= f) = .error e := rfl

@[simp] lemma bind_ok {ε α γ : Type} (a : α) (f : α → Except ε γ) : (Except.ok a >>= f) = f a := rfl

lemma report_bind {α γ : Type} (x : Except (Error β) α) (f : α → Except (Error β) γ) :
    report (x >>= f) = report x >>= fun a => report (f a) := by
  cases x <;> rfl

lemma bind_assoc {ε α γ δ : Type} (x : Except ε α) (f : α → Except ε γ) (g : γ → Except ε δ) :
    x >>= f >>= g = x >>= fun a => f a >>= g := by
  cases x <;> rfl

section Loop

variable {ast} {ending : Ending} {endOnComma : Bool}

/-- The loop gets through the tokens before it takes the next one. -/
def Reads (ast : Ast β φ Node Usage) (read : State Node Usage → Except (Error β) (State Node Usage))
    (tokens : List (Token β φ)) : Prop :=
  ∀ (ending : Ending) (endOnComma : Bool) (next : Token β φ) (rest : List (Token β φ)) (fuel : ℕ),
    next ≠ .leftParen → (tokens ++ next :: rest).length < fuel →
    ∃ fuel', (next :: rest).length < fuel' ∧ ∀ state : State Node Usage,
      parseLoop ast ending endOnComma fuel (tokens ++ next :: rest) state =
        report (read state) >>= parseLoop ast ending endOnComma fuel' (next :: rest)

lemma reads_variable (name : String) : Reads ast (readVariable ast name) [.identifier name] := by
  intro ending endOnComma next rest fuel hnext hfuel
  obtain ⟨fuel, rfl⟩ : ∃ k, fuel = k + 1 := ⟨fuel - 1, by omega⟩
  refine ⟨fuel, by simpa using hfuel, fun state => ?_⟩
  have hcloses : ending.closes endOnComma (.identifier name : Token β φ) = false := by
    cases ending <;> rfl
  simp only [List.singleton_append, parseLoop, hcloses, Bool.false_eq_true, if_false]
  -- a parenthesis would make it a call
  split
  · rename_i h
    cases h
  · rename_i h
    exact absurd (List.cons.inj h).1 hnext
  · rfl

lemma reads_constant (value : Constant φ) :
    Reads ast (readConstant ast value) [.constant value] := by
  intro ending endOnComma next rest fuel hnext hfuel
  obtain ⟨fuel, rfl⟩ : ∃ k, fuel = k + 1 := ⟨fuel - 1, by omega⟩
  refine ⟨fuel, by simpa using hfuel, fun state => ?_⟩
  cases ending <;> rfl

lemma parseLoop_operator (ending : Ending) (endOnComma : Bool) (operator : Operator)
    (tokens : List (Token β φ)) (fuel : ℕ) (state : State Node Usage) :
    parseLoop ast ending endOnComma (fuel + 1) (.operator operator :: tokens) state =
      report (readOperator ast operator state) >>=
        parseLoop ast ending endOnComma fuel tokens := by
  cases ending <;> rfl

lemma parseLoop_leftParen (ending : Ending) (endOnComma : Bool) (tokens : List (Token β φ))
    (fuel : ℕ) (state : State Node Usage) :
    parseLoop ast ending endOnComma (fuel + 1) (.leftParen :: tokens) state =
      parseLoop ast .rightParen false fuel tokens (.start state.usage) >>= fun inner =>
        report (State.push { state with usage := inner.usage } inner.value) >>=
          parseLoop ast ending endOnComma fuel inner.tokens := by
  cases ending <;> rfl

lemma parseLoop_closing {ending : Ending} {endOnComma : Bool} {token : Token β φ}
    (hcloses : ending.closes endOnComma token = true) (tokens : List (Token β φ)) (fuel : ℕ)
    (state : State Node Usage) :
    parseLoop ast ending endOnComma (fuel + 1) (token :: tokens) state =
      report (finish ast state) >>= fun (value, usage) => .ok ⟨value, token, tokens, usage⟩ :=
  if_pos hcloses

lemma reads_operand {read : State Node Usage → Except (Error β) (State Node Usage)}
    {tokens : List (Token β φ)} (h : Reads ast read tokens) (parens : Bool) :
    Reads ast (readOperand ast parens read) (Tree.enclose parens tokens) := by
  cases parens with
  | false => exact h
  | true =>
    intro ending endOnComma next rest fuel hnext hfuel
    obtain ⟨fuel, rfl⟩ : ∃ k, fuel = k + 1 := ⟨fuel - 1, by omega⟩
    have htokens : Tree.enclose true tokens ++ next :: rest =
        .leftParen :: (tokens ++ .rightParen :: next :: rest) := by simp [Tree.enclose]
    rw [htokens] at hfuel ⊢
    simp only [List.length_cons, List.length_append] at hfuel
    obtain ⟨fuel', hfuel', hinner⟩ := h .rightParen false .rightParen (next :: rest) fuel
      (by simp) (by simp; omega)
    obtain ⟨fuel', rfl⟩ : ∃ k, fuel' = k + 1 := ⟨fuel' - 1, by omega⟩
    refine ⟨fuel, by simp; omega, fun state => ?_⟩
    rw [parseLoop_leftParen, hinner]
    simp only [readOperand, if_true, report_bind, bind_assoc]
    congr 1
    funext inner
    rw [parseLoop_closing (by rfl), bind_assoc]
    rfl

lemma reads_binary {left right : State Node Usage → Except (Error β) (State Node Usage)}
    {leftTokens rightTokens : List (Token β φ)} (hleft : Reads ast left leftTokens)
    (hright : Reads ast right rightTokens) (operator : Operator) :
    Reads ast (fun state => left state >>= fun state => readOperator ast operator state >>= right)
      (leftTokens ++ .operator operator :: rightTokens) := by
  intro ending endOnComma next rest fuel hnext hfuel
  rw [List.append_assoc, List.cons_append] at hfuel ⊢
  obtain ⟨fuel, hfuel, heq⟩ := hleft ending endOnComma _ _ fuel (by simp) hfuel
  obtain ⟨fuel, rfl⟩ : ∃ k, fuel = k + 1 := ⟨fuel - 1, by omega⟩
  simp only [List.length_cons] at hfuel
  obtain ⟨fuel', hfuel', heq'⟩ := hright ending endOnComma next rest fuel hnext (by omega)
  refine ⟨fuel', hfuel', fun state => ?_⟩
  rw [heq, report_bind, bind_assoc]
  congr 1
  funext state'
  rw [parseLoop_operator, report_bind, bind_assoc]
  congr 1
  funext state''
  exact heq' state''

/-- **The loop goes through a printed tree** as the tree is read. -/
theorem reads_tokens (t : Tree φ) : Reads ast (t.read ast) t.tokens := by
  induction t with
  | var name => exact reads_variable name
  | const value => exact reads_constant value
  | binary operator left right ihLeft ihRight =>
    exact reads_binary (reads_operand ihLeft _) (reads_operand ihRight _) operator.1

end Loop

/-- **The parser on a printed tree** reads the tree and takes its node from the stacks. -/
theorem parseExpression_tokens (t : Tree φ) {ending : Ending} {endOnComma : Bool}
    {closing : Token β φ} (hcloses : ending.closes endOnComma closing = true)
    (rest : List (Token β φ)) (usage : Usage) :
    parseExpression ast ending endOnComma (t.tokens ++ closing :: rest) usage =
      report (t.read ast (.start usage) >>= finish ast) >>= fun (value, usage) =>
        .ok ⟨value, closing, rest, usage⟩ := by
  have hclosing : closing ≠ .leftParen := by
    rintro rfl
    cases ending <;> cases hcloses
  obtain ⟨fuel, hfuel, heq⟩ := (reads_tokens t : Reads ast _ _) ending endOnComma closing rest
    ((t.tokens ++ closing :: rest).length + 1) hclosing (by omega)
  obtain ⟨fuel, rfl⟩ : ∃ k, fuel = k + 1 := ⟨fuel - 1, by omega⟩
  rw [parseExpression, heq, report_bind, bind_assoc]
  congr 1
  funext state
  exact parseLoop_closing hcloses rest fuel state

end KernelModel.Glsl.Expression
