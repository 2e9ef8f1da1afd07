import KernelModel.GlslExpressionPrint

/-!
Which printed expressions are parsed back.

Two habits of the parser decide it. The flag that tells a value from an operator is not set
behind a parenthesis, so that the next operator is taken for a unary one, and none of these is
implemented. An operator takes only operators of a smaller precedence off the stack, so that a
run of operators of one precedence groups to the right.
-/

namespace KernelModel.Glsl.Expression

variable {β φ Node Usage : Type}

namespace Tree

/-! ### Where the parser differs from the text -/

/-- The text ends in a parenthesis. -/
def endsInParen : Tree φ → Bool
  | .binary operator _ right => rightParens operator right || right.endsInParen
  | _ => false

/-- No operator of the text stands behind a parenthesis. -/
def plain : Tree φ → Bool
  | .binary operator left right =>
    !leftParens operator left && left.plain && !left.endsInParen && right.plain
  | _ => true

/-- The operator over the two trees, put under the operators of its own precedence. -/
def attach (operator : BinaryOperator) : Tree φ → Tree φ → Tree φ
  | .binary operator' left right, t =>
    if operator'.precedence = operator.precedence then
      .binary operator' left (attach operator right t)
    else .binary operator (.binary operator' left right) t
  | leaf, t => .binary operator leaf t

/-- **The grouping of the parser**: the runs of one precedence go to the right. -/
def regroup : Tree φ → Tree φ
  | .binary operator left right => attach operator left.regroup right.regroup
  | leaf => leaf

/-- The number of operators of one precedence in the run that a left operand is. -/
def chain (precedence : ℕ) : Tree φ → ℕ
  | .binary operator left _ =>
    if operator.precedence = precedence then left.chain precedence + 1 else 0
  | _ => 0

/-- The stacks have room for the tree behind `n` values that wait. -/
def fits : Tree φ → ℕ → Bool
  | .binary operator left right, n =>
    let waiting := n + left.chain operator.precedence + 1
    left.fits n &&
      if rightParens operator right then right.fits 0 && waiting < stackSize
      else right.fits waiting
  | _, n => n < stackSize

end Tree

variable {ast : Ast β φ Node Usage}

/-! ### Operators behind a parenthesis -/

/-- An operator waits that was taken for a unary one. -/
def Stuck (operators : List StackElement) : Prop :=
  ∃ element ∈ operators, element.isBinary = false

lemma apply_isBinary {element : StackElement} {values : List Node} {usage : Usage}
    {r : List Node × Usage} (h : apply ast element values usage = .ok r) :
    element.isBinary = true := by
  by_contra hb
  rw [apply.eq_def, if_neg hb] at h
  cases values <;> cases h

lemma processOperatorStack_stuck {precedence : ℕ} {operators operators' : List StackElement}
    {values : List Node} {usage : Usage} {r : List Node × Usage} (hstuck : Stuck operators)
    (h : processOperatorStack ast precedence operators values usage = .ok (operators', r)) :
    Stuck operators' := by
  induction operators generalizing values usage with
  | nil =>
    obtain ⟨_, hmem, -⟩ := hstuck
    cases hmem
  | cons element operators ih =>
    rw [processOperatorStack] at h
    split_ifs at h with hlt
    · cases happly : apply ast element values usage with
      | error e =>
        rw [happly] at h
        cases h
      | ok r' =>
        rw [happly] at h
        refine ih ?_ h
        obtain ⟨element', hmem, hunary⟩ := hstuck
        rcases List.mem_cons.mp hmem with rfl | hmem
        · rw [apply_isBinary happly] at hunary
          cases hunary
        · exact ⟨element', hmem, hunary⟩
    · cases h
      exact hstuck

lemma finish_not_stuck {state : State Node Usage} {r : Node × Usage}
    (h : finish ast state = .ok r) : ¬ Stuck state.operators := by
  intro hstuck
  rw [finish] at h
  cases hprocess : processOperatorStack ast 0xffffffff state.operators state.values state.usage with
  | error e =>
    rw [hprocess] at h
    cases h
  | ok r' =>
    obtain ⟨operators, values, usage⟩ := r'
    obtain ⟨_, hmem, -⟩ := processOperatorStack_stuck hstuck hprocess
    rw [hprocess, bind_ok] at h
    cases operators with
    | nil => cases hmem
    | cons element operators => cases h

lemma readVariable_ok {name : String} {state state' : State Node Usage}
    (h : readVariable ast name state = .ok state') :
    state'.operators = state.operators ∧ state'.lastTokenWasValue = true := by
  rw [readVariable] at h
  split_ifs at h with hfull
  cases hvar : ast.lookupVar name with
  | none =>
    rw [hvar] at h
    cases h
  | some node =>
    rw [hvar] at h
    cases h
    exact ⟨rfl, rfl⟩

lemma push_ok {state state' : State Node Usage} {value : Node}
    (h : (state.push value : Except (Error β) _) = .ok state') :
    state'.operators = state.operators ∧
      state'.lastTokenWasValue = state.lastTokenWasValue := by
  rw [State.push] at h
  split_ifs at h
  cases h
  exact ⟨rfl, rfl⟩

lemma readConstant_ok {value : Constant φ} {state state' : State Node Usage}
    (h : readConstant ast value state = .ok state') :
    state'.operators = state.operators ∧ state'.lastTokenWasValue = true := by
  rw [readConstant] at h
  cases hpush : (state.push (ast.constant value) : Except (Error β) _) with
  | error e =>
    rw [hpush] at h
    cases h
  | ok state'' =>
    rw [hpush] at h
    cases h
    exact ⟨(push_ok hpush).1, rfl⟩

lemma readOperator_ok {operator : Operator} {state state' : State Node Usage}
    (h : readOperator ast operator state = .ok state') :
    state'.lastTokenWasValue = false ∧
      (Stuck state.operators ∨ state.lastTokenWasValue = false → Stuck state'.operators) := by
  unfold readOperator at h
  dsimp only at h
  split_ifs at h with hbinary hunary
  cases hprocess : processOperatorStack ast
      ((operatorTable operator).precedence state.lastTokenWasValue) state.operators state.values
      state.usage with
  | error e =>
    rw [hprocess] at h
    cases h
  | ok r =>
    obtain ⟨operators, values, usage⟩ := r
    rw [hprocess, bind_ok] at h
    dsimp only at h
    split_ifs at h
    cases h
    refine ⟨rfl, fun hor => ?_⟩
    rcases hor with hstuck | hflag
    · obtain ⟨element, hmem, helement⟩ := processOperatorStack_stuck hstuck hprocess
      exact ⟨element, List.mem_cons_of_mem _ hmem, helement⟩
    · exact ⟨_, List.mem_cons_self, hflag⟩

lemma bind_eq_ok {ε α γ : Type} {x : Except ε α} {f : α → Except ε γ} {r : γ}
    (h : x >>= f = .ok r) : ∃ a, x = .ok a ∧ f a = .ok r := by
  cases x with
  | error e => cases h
  | ok a => exact ⟨a, rfl, h⟩

lemma readOperand_stuck {read : State Node Usage → Except (Error β) (State Node Usage)}
    (hread : ∀ {state state'}, read state = .ok state' → Stuck state.operators →
      Stuck state'.operators)
    {parens : Bool} {state state' : State Node Usage}
    (h : readOperand ast parens read state = .ok state') (hstuck : Stuck state.operators) :
    Stuck state'.operators := by
  cases parens with
  | false => exact hread h hstuck
  | true =>
    obtain ⟨inner, -, h⟩ := bind_eq_ok h
    obtain ⟨⟨value, usage⟩, -, h⟩ := bind_eq_ok h
    rw [(push_ok h).1]
    exact hstuck

lemma read_stuck (t : Tree φ) {state state' : State Node Usage}
    (h : t.read ast state = .ok state') (hstuck : Stuck state.operators) :
    Stuck state'.operators := by
  induction t generalizing state state' with
  | var name => rwa [(readVariable_ok h).1]
  | const value => rwa [(readConstant_ok h).1]
  | binary operator left right ihLeft ihRight =>
    obtain ⟨state₁, h₁, h⟩ := bind_eq_ok h
    obtain ⟨state₂, h₂, h⟩ := bind_eq_ok h
    have hstuck₁ := readOperand_stuck (fun h hs => ihLeft h hs) h₁ hstuck
    have hstuck₂ := (readOperator_ok h₂).2 (.inl hstuck₁)
    exact readOperand_stuck (fun h hs => ihRight h hs) h hstuck₂

/-- **The flag behind a tree**, unless an operator was taken for a unary one. -/
lemma read_flag (t : Tree φ) {state state' : State Node Usage}
    (h : t.read ast state = .ok state') (hflag : state.lastTokenWasValue = false) :
    Stuck state'.operators ∨
      t.plain = true ∧ state'.lastTokenWasValue = !t.endsInParen := by
  -- a tree in parentheses leaves the flag as it was
  have hoperand : ∀ (t : Tree φ) (parens : Bool) {state state' : State Node Usage},
      (∀ {state state'}, t.read ast state = .ok state' → state.lastTokenWasValue = false →
        Stuck state'.operators ∨ t.plain = true ∧ state'.lastTokenWasValue = !t.endsInParen) →
      readOperand ast parens (t.read ast) state = .ok state' → state.lastTokenWasValue = false →
      Stuck state'.operators ∨
        t.plain = true ∧ state'.lastTokenWasValue = !(parens || t.endsInParen) := by
    intro t parens state state' ih h hflag
    cases parens with
    | false => simpa using ih h hflag
    | true =>
      obtain ⟨inner, hinner, h⟩ := bind_eq_ok h
      obtain ⟨⟨value, usage⟩, hfinish, h⟩ := bind_eq_ok h
      have hplain := (ih hinner rfl).resolve_left (finish_not_stuck hfinish)
      refine .inr ⟨hplain.1, ?_⟩
      rw [(push_ok h).2]
      exact hflag
  induction t generalizing state state' with
  | var name => exact .inr ⟨rfl, (readVariable_ok h).2⟩
  | const value => exact .inr ⟨rfl, (readConstant_ok h).2⟩
  | binary operator left right ihLeft ihRight =>
    obtain ⟨state₁, h₁, h⟩ := bind_eq_ok h
    obtain ⟨state₂, h₂, h⟩ := bind_eq_ok h
    obtain ⟨hflag₂, hstuck₂⟩ := readOperator_ok h₂
    by_cases hstuck : Stuck state₂.operators
    · exact .inl (readOperand_stuck (fun h hs => read_stuck right h hs) h hstuck)
    have hleft := hoperand left _ (fun h hs => ihLeft h hs) h₁ hflag
    have hright := hoperand right _ (fun h hs => ihRight h hs) h hflag₂
    have hvalue : state₁.lastTokenWasValue = true := by
      by_contra hvalue
      exact hstuck (hstuck₂ (.inr (by simpa using hvalue)))
    have hleft := hleft.resolve_left fun hs => hstuck (hstuck₂ (.inl hs))
    rw [hvalue] at hleft
    obtain ⟨hplain, hparens⟩ := hleft
    refine hright.imp_right fun hright => ⟨?_, hright.2⟩
    simp only [Tree.plain, Bool.and_eq_true, Bool.not_eq_true']
    have hparens : Tree.leftParens operator left = false ∧ left.endsInParen = false := by
      simpa using hparens.symm
    exact ⟨⟨⟨hparens.1, hplain⟩, hparens.2⟩, hright.1⟩

end KernelModel.Glsl.Expression
