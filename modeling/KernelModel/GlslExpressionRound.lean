import KernelModel.GlslExpressionFlag

/-!
The two stacks behind a printed tree.

The stacks are described by the trees of their values: a left operand for every operator that
waits, and the tree that was read last. Where no operator stands behind a parenthesis, this is
what the parser has after each operand, and what it makes of it in the end is the tree with its
runs of one precedence grouped to the right.
-/

namespace KernelModel.Glsl.Expression

variable {β φ Node Usage : Type}

/-- The operators that wait with their left operands, the last one first. -/
abbrev Frames (φ : Type) : Type := List (Tree φ × BinaryOperator)

namespace Frames

/-- `_process_operator_stack` on the trees. -/
def reduce (precedence : ℕ) : Frames φ → Tree φ → Frames φ × Tree φ
  | [], t => ([], t)
  | (left, operator) :: frames, t =>
    if operator.precedence < precedence then reduce precedence frames (.binary operator left t)
    else ((left, operator) :: frames, t)

def collapse : Frames φ → Tree φ → Tree φ
  | [], t => t
  | (left, operator) :: frames, t => collapse frames (.binary operator left t)

lemma collapse_append (frames frames' : Frames φ) (t : Tree φ) :
    collapse (frames ++ frames') t = collapse frames' (collapse frames t) := by
  induction frames generalizing t with
  | nil => rfl
  | cons frame frames ih => exact ih _

lemma reduce_all {precedence : ℕ} {frames : Frames φ}
    (h : ∀ frame ∈ frames, frame.2.precedence < precedence) (t : Tree φ) :
    reduce precedence frames t = ([], collapse frames t) := by
  induction frames generalizing t with
  | nil => rfl
  | cons frame frames ih =>
    rw [reduce, if_pos (h _ List.mem_cons_self), ih fun frame hmem =>
      h frame (List.mem_cons_of_mem _ hmem)]
    rfl

lemma mem_of_mem_reduce {precedence : ℕ} {frames : Frames φ} {t : Tree φ}
    {frame : Tree φ × BinaryOperator} (h : frame ∈ (reduce precedence frames t).1) :
    frame ∈ frames := by
  induction frames generalizing t with
  | nil => exact h
  | cons frame' frames ih =>
    rw [reduce] at h
    split_ifs at h
    · exact List.mem_cons_of_mem _ (ih h)
    · exact h

lemma reduce_none {precedence : ℕ} {frames : Frames φ}
    (h : ∀ frame ∈ frames, precedence ≤ frame.2.precedence) (t : Tree φ) :
    reduce precedence frames t = (frames, t) := by
  cases frames with
  | nil => rfl
  | cons frame frames =>
    rw [reduce, if_neg (by simpa using h _ List.mem_cons_self)]

lemma reduce_append {precedence : ℕ} {frames' : Frames φ}
    (h : ∀ frame ∈ frames', precedence ≤ frame.2.precedence) (frames : Frames φ) (t : Tree φ) :
    reduce precedence (frames ++ frames') t =
      ((reduce precedence frames t).1 ++ frames', (reduce precedence frames t).2) := by
  induction frames generalizing t with
  | nil => exact reduce_none h t
  | cons frame frames ih =>
    rw [List.cons_append, reduce, reduce]
    split_ifs
    · exact ih _
    · rfl

end Frames

namespace Tree

/-- What waits behind the text of a tree, and the tree that was read last. -/
def pending : Tree φ → Frames φ × Tree φ
  | .binary operator left right =>
    let reduced := Frames.reduce operator.precedence left.pending.1 left.pending.2
    if rightParens operator right then ((reduced.2, operator) :: reduced.1, right.regroup)
    else (right.pending.1 ++ (reduced.2, operator) :: reduced.1, right.pending.2)
  | leaf => ([], leaf)

/-! ### Grouping to the right -/

lemma precedence_attach (operator : BinaryOperator) (t t' : Tree φ) :
    (attach operator t t').precedence = operator.precedence := by
  cases t with
  | binary operator' left right =>
    rw [attach]
    split_ifs with h
    · exact h
    · rfl
  | _ => rfl

lemma precedence_regroup (t : Tree φ) : t.regroup.precedence = t.precedence := by
  cases t with
  | binary operator left right => exact precedence_attach _ _ _
  | _ => rfl

lemma attach_of_ne {operator : BinaryOperator} {t : Tree φ}
    (h : t.precedence ≠ operator.precedence) (t' : Tree φ) :
    attach operator t t' = .binary operator t t' := by
  cases t with
  | binary operator' left right => exact if_neg h
  | _ => rfl

lemma attach_attach {operator operator' : BinaryOperator}
    (hoperator : operator'.precedence = operator.precedence) {right : Tree φ}
    (hright : right.precedence ≠ operator.precedence) (t t' : Tree φ) :
    attach operator (attach operator' t right) t' =
      attach operator' t (.binary operator right t') := by
  have hleaf : ∀ t : Tree φ, attach operator (.binary operator' t right) t' =
      .binary operator' t (.binary operator right t') := fun t => by
    rw [attach, if_pos hoperator, attach_of_ne hright]
  induction t with
  | binary operator'' left right' _ ih =>
    by_cases h : operator''.precedence = operator'.precedence
    · rw [attach, if_pos h, attach, if_pos (h.trans hoperator), ih, attach, if_pos h]
    · have hne : (Tree.binary operator'' left right').precedence ≠ operator'.precedence := h
      rw [attach_of_ne hne, hleaf, attach_of_ne hne]
  | _ => exact hleaf _

lemma leftParens_eq_false {operator : BinaryOperator} {left : Tree φ} :
    leftParens operator left = false ↔ left.precedence ≤ operator.precedence ∧
      (left.precedence = operator.precedence → operator.precedence ≠ assignPrecedence) := by
  simp [leftParens]

lemma rightParens_eq_false {operator : BinaryOperator} {right : Tree φ} :
    rightParens operator right = false ↔ right.precedence ≤ operator.precedence ∧
      (right.precedence = operator.precedence → operator.precedence = assignPrecedence) := by
  simp [rightParens]

lemma plain_binary {operator : BinaryOperator} {left right : Tree φ} :
    (binary operator left right).plain = true ↔ leftParens operator left = false ∧
      left.plain = true ∧ left.endsInParen = false ∧ right.plain = true := by
  simp [plain, and_assoc]

lemma precedence_pending {t : Tree φ} (hplain : t.plain = true) :
    ∀ frame ∈ t.pending.1, frame.2.precedence ≤ t.precedence := by
  induction t with
  | binary operator left right ihLeft ihRight =>
    obtain ⟨hparens, hleft, -, hright⟩ := plain_binary.mp hplain
    have hframes : ∀ frame ∈ (Frames.reduce operator.precedence left.pending.1
        left.pending.2).1, frame.2.precedence ≤ operator.precedence := fun frame hmem =>
      (ihLeft hleft frame (Frames.mem_of_mem_reduce hmem)).trans
        (leftParens_eq_false.mp hparens).1
    intro frame hmem
    rw [pending] at hmem
    split_ifs at hmem with hr
    · rcases List.mem_cons.mp hmem with rfl | hmem
      · exact le_rfl
      · exact hframes frame hmem
    · have hr := (rightParens_eq_false.mp (Bool.eq_false_of_not_eq_true hr)).1
      rcases List.mem_append.mp hmem with hmem | hmem
      · exact (ihRight hright frame hmem).trans hr
      rcases List.mem_cons.mp hmem with rfl | hmem
      · exact le_rfl
      · exact hframes frame hmem
  | _ => simp [pending]

/-- What an operator of the precedence finds behind its left operand: the run of its own
precedence still waits, and the node of the operator goes under the operators of the run. -/
structure Run (precedence : ℕ) (t : Tree φ) (reduced : Frames φ × Tree φ) : Prop where
  length : reduced.1.length = t.chain precedence
  precedence_eq : ∀ frame ∈ reduced.1, frame.2.precedence = precedence
  collapse_eq : ∀ (operator : BinaryOperator) (right : Tree φ),
    operator.precedence = precedence →
      Frames.collapse reduced.1 (.binary operator reduced.2 right) = attach operator t.regroup right

lemma Run.of_lt {precedence : ℕ} {t : Tree φ} (hplain : t.plain = true)
    (hcollapse : Frames.collapse t.pending.1 t.pending.2 = t.regroup)
    (hlt : t.precedence < precedence) :
    Run precedence t (Frames.reduce precedence t.pending.1 t.pending.2) := by
  rw [Frames.reduce_all fun frame hmem => (precedence_pending hplain frame hmem).trans_lt hlt,
    hcollapse]
  refine ⟨?_, by simp, ?_⟩
  · cases t with
    | binary operator left right => exact (if_neg hlt.ne).symm
    | _ => rfl
  · rintro operator right rfl
    exact (attach_of_ne (by rw [precedence_regroup]; exact hlt.ne) right).symm

lemma Run.of_eq {operator : BinaryOperator} {left right : Tree φ} {frames : Frames φ}
    {t : Tree φ}
    (hrun : Run operator.precedence left
      (Frames.reduce operator.precedence left.pending.1 left.pending.2))
    (hright : right.precedence < operator.precedence)
    (hreduce : Frames.reduce operator.precedence frames t =
      (((Frames.reduce operator.precedence left.pending.1 left.pending.2).2, operator) ::
        (Frames.reduce operator.precedence left.pending.1 left.pending.2).1, right.regroup)) :
    Run operator.precedence (.binary operator left right)
      (Frames.reduce operator.precedence frames t) := by
  rw [hreduce]
  refine ⟨?_, ?_, ?_⟩
  · rw [chain, if_pos rfl, List.length_cons, hrun.length]
  · intro frame hmem
    rcases List.mem_cons.mp hmem with rfl | hmem
    · rfl
    · exact hrun.precedence_eq frame hmem
  · intro operator' t' hoperator'
    rw [Frames.collapse, hrun.collapse_eq operator _ rfl, regroup, attach_attach hoperator'.symm]
    rw [precedence_regroup, hoperator']
    exact hright.ne

lemma pending_spec {t : Tree φ} (hplain : t.plain = true) :
    Frames.collapse t.pending.1 t.pending.2 = t.regroup ∧
      ∀ precedence, t.endsInParen = false → t.precedence ≤ precedence →
        (t.precedence = precedence → precedence ≠ assignPrecedence) →
        Run precedence t (Frames.reduce precedence t.pending.1 t.pending.2) := by
  induction t with
  | binary operator left right ihLeft ihRight =>
    have hcollapse : Frames.collapse (binary operator left right).pending.1
        (binary operator left right).pending.2 = (binary operator left right).regroup := by
      obtain ⟨hparens, hleft, hends, hright⟩ := plain_binary.mp hplain
      obtain ⟨hle, hne⟩ := leftParens_eq_false.mp hparens
      have hrun := (ihLeft hleft).2 operator.precedence hends hle hne
      rw [pending]
      split_ifs with hr
      · exact hrun.collapse_eq operator _ rfl
      · rw [Frames.collapse_append, (ihRight hright).1]
        exact hrun.collapse_eq operator _ rfl
    refine ⟨hcollapse, fun precedence hends hle hne => ?_⟩
    rcases hle.lt_or_eq with hlt | rfl
    · exact Run.of_lt hplain hcollapse hlt
    obtain ⟨hparens, hleft, hends', hright⟩ := plain_binary.mp hplain
    obtain ⟨hle', hne'⟩ := leftParens_eq_false.mp hparens
    have hr : rightParens operator right = false := by
      simp only [endsInParen, Bool.or_eq_false_iff] at hends
      exact hends.1
    obtain ⟨hrle, hrne⟩ := rightParens_eq_false.mp hr
    have hlt : right.precedence < operator.precedence :=
      lt_of_le_of_ne hrle fun heq => hne rfl (hrne heq)
    have hrun := (ihLeft hleft).2 _ hends' hle' hne'
    refine Run.of_eq hrun hlt ?_
    have hframes : ∀ frame ∈ ((Frames.reduce operator.precedence left.pending.1
        left.pending.2).2, operator) :: (Frames.reduce operator.precedence left.pending.1
        left.pending.2).1, operator.precedence ≤ frame.2.precedence := by
      intro frame hmem
      rcases List.mem_cons.mp hmem with rfl | hmem
      · exact le_rfl
      · exact (hrun.precedence_eq frame hmem).ge
    simp only [pending, hr, Bool.false_eq_true, if_false]
    rw [Frames.reduce_append hframes, Frames.reduce_all fun frame hmem =>
      (precedence_pending hright frame hmem).trans_lt hlt, (ihRight hright).1]
    rfl
  | _ =>
    refine ⟨rfl, fun precedence _ _ _ => ⟨rfl, by simp [pending, Frames.reduce], ?_⟩⟩
    intro operator right _
    rfl

lemma fits_lt {t : Tree φ} {n : ℕ} (h : t.fits n = true) : n < stackSize := by
  induction t generalizing n with
  | binary operator left right ihLeft _ =>
    simp only [fits, Bool.and_eq_true] at h
    exact ihLeft h.1
  | _ => simpa [fits] using h

lemma fits_chain {t : Tree φ} {n : ℕ} (h : t.fits n = true) (precedence : ℕ) :
    n + t.chain precedence < stackSize := by
  cases t with
  | binary operator left right =>
    have hn := fits_lt h
    rw [chain]
    split_ifs with hoperator
    · subst hoperator
      simp only [fits, Bool.and_eq_true] at h
      obtain ⟨-, h⟩ := h
      split_ifs at h
      · simp only [Bool.and_eq_true, decide_eq_true_eq] at h
        omega
      · have := fits_lt h
        omega
    · exact hn
  | _ => simpa [chain] using fits_lt h

end Tree

/-! ### The stacks -/

variable (ast : Ast β φ Node Usage)

/-- The values of the left operands, built in the order of the text. -/
def buildFrames : Frames φ → Usage → Option (List Node × Usage)
  | [], usage => some ([], usage)
  | (left, _) :: frames, usage => do
    let (values, usage) ← buildFrames frames usage
    let (value, usage) ← left.build ast usage
    some (value :: values, usage)

def elements (frames : Frames φ) : List StackElement :=
  frames.map fun (_, operator) => ⟨operator.1, true, operator.precedence⟩

/-- The parser before an operand. -/
def before (frames : Frames φ) (usage : Usage) : Option (State Node Usage) := do
  let (values, usage) ← buildFrames ast frames usage
  some ⟨elements frames, values, false, usage⟩

/-- The parser behind an operand. -/
def behind (flag : Bool) (frames : Frames φ) (t : Tree φ) (usage : Usage) :
    Option (State Node Usage) := do
  let (values, usage) ← buildFrames ast frames usage
  let (value, usage) ← t.build ast usage
  some ⟨elements frames, value :: values, flag, usage⟩

variable {ast}

lemma length_buildFrames {frames : Frames φ} {usage usage' : Usage} {values : List Node}
    (h : buildFrames ast frames usage = some (values, usage')) :
    values.length = frames.length := by
  induction frames generalizing values usage' with
  | nil =>
    cases h
    rfl
  | cons frame frames ih =>
    obtain ⟨⟨values', usage₁⟩, hvalues, h⟩ := Option.bind_eq_some_iff.mp h
    obtain ⟨⟨value, usage₂⟩, hvalue, h⟩ := Option.bind_eq_some_iff.mp h
    cases h
    rw [List.length_cons, List.length_cons, ih hvalues]

lemma toOption_bind {ε α γ : Type} (x : Except ε α) (f : α → Except ε γ) :
    (x >>= f).toOption = x.toOption.bind fun a => (f a).toOption := by
  cases x <;> rfl

lemma apply_toOption (operator : BinaryOperator) (precedence : ℕ) (left right : Node)
    (values : List Node) (usage : Usage) :
    (apply ast ⟨operator.1, true, precedence⟩ (right :: left :: values) usage).toOption =
      (combine ast operator left right usage).map fun (node, usage) => (node :: values, usage) := by
  rw [apply.eq_def, if_pos rfl]
  simp only [combine]
  cases ast.valueType left <;> cases ast.valueType right <;> try rfl
  rcases ast.binary operator.1 left right usage with e | ⟨_ | node, usage⟩ <;> rfl

variable (ast) in
/-- **The operator stack** is processed as the trees are. -/
lemma processOperatorStack_toOption (precedence : ℕ) (frames : Frames φ) (t : Tree φ)
    (usage : Usage) :
    ((buildFrames ast frames usage).bind fun (values, usage) =>
      (t.build ast usage).bind fun (value, usage) =>
        (processOperatorStack ast precedence (elements frames) (value :: values)
          usage).toOption) =
      (buildFrames ast (frames.reduce precedence t).1 usage).bind fun (values, usage) =>
        ((frames.reduce precedence t).2.build ast usage).map fun (value, usage) =>
          (elements (frames.reduce precedence t).1, value :: values, usage) := by
  induction frames generalizing t with
  | nil =>
    simp only [buildFrames, Frames.reduce, Option.bind_some, elements, List.map_nil,
      processOperatorStack]
    cases t.build ast usage <;> rfl
  | cons frame frames ih =>
    obtain ⟨left, operator⟩ := frame
    rw [Frames.reduce]
    by_cases hlt : operator.precedence < precedence
    · rw [if_pos hlt, ← ih]
      simp only [buildFrames, Tree.build, elements, List.map_cons, processOperatorStack, hlt,
        if_true, toOption_bind, apply_toOption, Option.bind_eq_bind, Option.bind_assoc,
        Option.bind_some, Option.bind_map]
      rfl
    · rw [if_neg hlt]
      simp only [elements, List.map_cons, processOperatorStack, hlt, if_false]
      cases buildFrames ast ((left, operator) :: frames) usage with
      | none => rfl
      | some r =>
        simp only [Option.bind_some]
        cases t.build ast r.2 <;> rfl

lemma BinaryOperator.precedence_le (operator : BinaryOperator) :
    operator.precedence ≤ assignPrecedence := by
  obtain ⟨operator, h⟩ := operator
  cases operator <;> simp [BinaryOperator.precedence, operatorTable, assignPrecedence]

/-- A binary operator takes the operators of a smaller precedence off the stack and waits. -/
lemma readOperator_toOption (operator : BinaryOperator) (frames : Frames φ) (t : Tree φ)
    (usage : Usage) :
    ((behind ast true frames t usage).bind fun state =>
      (readOperator ast operator.1 state).toOption) =
      if (frames.reduce operator.precedence t).1.length = stackSize then none
      else before ast (((frames.reduce operator.precedence t).2, operator) ::
        (frames.reduce operator.precedence t).1) usage := by
  have hprocess := processOperatorStack_toOption ast operator.precedence frames t usage
  have hread : ∀ (values : List Node) (usage : Usage),
      (readOperator ast operator.1 ⟨elements frames, values, true, usage⟩).toOption =
        (processOperatorStack ast operator.precedence (elements frames) values usage).toOption.bind
          fun r =>
            if r.1.length = stackSize then none
            else
              some ⟨⟨operator.1, true, operator.precedence⟩ :: r.1, r.2.1, false, r.2.2⟩ := by
    intro values usage
    simp only [readOperator, operator.2, Bool.not_true, Bool.and_false, Bool.false_eq_true,
      if_false, Bool.false_and, toOption_bind]
    rw [show (operatorTable operator.1).precedence true = operator.precedence from rfl]
    congr 1
    funext r
    split_ifs <;> rfl
  have hwait := congrArg (fun o => o.bind fun r =>
    if r.1.length = stackSize then none
    else some (⟨⟨operator.1, true, operator.precedence⟩ :: r.1, r.2.1, false, r.2.2⟩ :
      State Node Usage)) hprocess
  simp only [Option.bind_assoc, Option.bind_map, Function.comp_def] at hwait
  simp only [behind, before, buildFrames, Option.bind_eq_bind, Option.bind_assoc, Option.bind_some,
    hread]
  rw [hwait]
  simp only [elements, List.length_map, List.map_cons]
  split_ifs <;> simp

/-- The only value, where no operator is left. -/
def takeOnly : List StackElement × List Node × Usage → Option (Node × Usage)
  | ([], [value], usage) => some (value, usage)
  | _ => none

lemma finish_toOption (flag : Bool) (frames : Frames φ) (t : Tree φ) (usage : Usage) :
    ((behind ast flag frames t usage).bind fun state => (finish ast state).toOption) =
      (frames.collapse t).build ast usage := by
  have hprocess := processOperatorStack_toOption ast 0xffffffff frames t usage
  have hlt : ∀ frame ∈ frames, frame.2.precedence < 0xffffffff := fun frame _ =>
    frame.2.precedence_le.trans_lt (by decide)
  rw [Frames.reduce_all hlt] at hprocess
  have hfinish : ∀ (values : List Node) (usage : Usage),
      (finish ast ⟨elements frames, values, flag, usage⟩).toOption =
        (processOperatorStack ast 0xffffffff (elements frames) values usage).toOption.bind
          takeOnly := by
    intro values usage
    rw [finish, toOption_bind]
    congr 1
    funext r
    obtain ⟨operators, values, usage⟩ := r
    rcases operators with _ | ⟨operator, operators⟩
    · rcases values with _ | ⟨value, _ | ⟨value', values⟩⟩ <;> rfl
    · rfl
  have hnode := congrArg (fun o => o.bind takeOnly) hprocess
  simp only [Option.bind_assoc, Option.bind_map, Function.comp_def] at hnode
  simp only [behind, Option.bind_eq_bind, Option.bind_assoc, Option.bind_some, hfinish]
  rw [hnode]
  simp only [buildFrames, elements, List.map_nil, Option.bind_some]
  cases (frames.collapse t).build ast usage <;> rfl

lemma readLeaf_toOption {frames : Frames φ} (hframes : frames.length ≤ stackSize) (t : Tree φ)
    (read : State Node Usage → Except (Error β) (State Node Usage)) (usage : Usage)
    (hread : ∀ state, (read state).toOption =
      if state.values.length = stackSize then none
      else (t.build ast state.usage).map fun (value, usage) =>
        ⟨state.operators, value :: state.values, true, usage⟩) :
    ((before ast frames usage).bind fun state => (read state).toOption) =
      if frames.length < stackSize then behind ast true frames t usage else none := by
  rw [before, behind]
  cases hvalues : buildFrames ast frames usage with
  | none => simp
  | some r =>
    obtain ⟨values, usage'⟩ := r
    simp only [Option.bind_eq_bind, Option.bind_some, hread, length_buildFrames hvalues]
    by_cases hlt : frames.length < stackSize
    · rw [if_pos hlt, if_neg hlt.ne]
      cases t.build ast usage' <;> rfl
    · rw [if_neg hlt, if_pos (by omega)]

lemma readVariable_toOption (name : String) (state : State Node Usage) :
    (readVariable ast name state).toOption =
      if state.values.length = stackSize then none
      else ((Tree.var name : Tree φ).build ast state.usage).map fun (value, usage) =>
        ⟨state.operators, value :: state.values, true, usage⟩ := by
  rw [readVariable]
  split_ifs
  · rfl
  · rw [Tree.build]
    cases ast.lookupVar name <;> rfl

lemma readConstant_toOption (value : Constant φ) (state : State Node Usage) :
    (readConstant ast value state).toOption =
      if state.values.length = stackSize then none
      else ((Tree.const value).build ast state.usage).map fun (value, usage) =>
        ⟨state.operators, value :: state.values, true, usage⟩ := by
  rw [readConstant, State.push]
  split_ifs <;> rfl

lemma readOperand_parens {t : Tree φ} (hplain : t.plain = true)
    (hread : ∀ usage, ((before ast [] usage).bind fun state => (t.read ast state).toOption) =
      if t.fits 0 then behind ast (!t.endsInParen) t.pending.1 t.pending.2 usage else none)
    {frames : Frames φ} (hframes : frames.length ≤ stackSize) (usage : Usage) :
    ((before ast frames usage).bind fun state =>
      (readOperand ast true (t.read ast) state).toOption) =
      if t.fits 0 && frames.length < stackSize then behind ast false frames t.regroup usage
      else none := by
  have hvalue : ∀ usage, ((t.read ast (.start usage)).toOption.bind fun state =>
      (finish ast state).toOption) = if t.fits 0 then t.regroup.build ast usage else none := by
    intro usage
    have h := congrArg (fun o => o.bind fun state => (finish ast state).toOption) (hread usage)
    have hstart : before ast ([] : Frames φ) usage = some (.start usage) := rfl
    rw [hstart] at h
    refine h.trans ?_
    split_ifs
    · exact (finish_toOption _ _ _ usage).trans (by rw [(Tree.pending_spec hplain).1])
    · rfl
  rw [before, behind]
  cases hvalues : buildFrames ast frames usage with
  | none => simp
  | some r =>
    obtain ⟨values, usage'⟩ := r
    simp only [Option.bind_eq_bind, Option.bind_some, readOperand, if_true, toOption_bind]
    rw [← Option.bind_assoc, hvalue]
    simp only [State.push, length_buildFrames hvalues]
    by_cases hfits : t.fits 0 = true
    · simp only [hfits, if_true, Bool.true_and]
      by_cases hlt : frames.length < stackSize
      · simp only [hlt, hlt.ne, decide_true, if_true, if_false]
        rfl
      · have hfull : frames.length = stackSize := by omega
        simp only [hfull, lt_irrefl, decide_false, Bool.false_eq_true, if_true, if_false]
        cases t.regroup.build ast usage' <;> rfl
    · simp [hfits]

variable (ast) in
/-- **The stacks behind a printed tree** in which no operator stands behind a parenthesis. -/
theorem read_toOption {t : Tree φ} (hplain : t.plain = true) {frames : Frames φ}
    (hframes : frames.length ≤ stackSize)
    (hprecedence : ∀ frame ∈ frames, t.precedence ≤ frame.2.precedence) (usage : Usage) :
    ((before ast frames usage).bind fun state => (t.read ast state).toOption) =
      if t.fits frames.length then
        behind ast (!t.endsInParen) (t.pending.1 ++ frames) t.pending.2 usage
      else none := by
  induction t generalizing frames usage with
  | var name =>
    refine (readLeaf_toOption hframes (.var name : Tree φ) _ usage
      (readVariable_toOption name)).trans ?_
    simp [Tree.fits, Tree.pending, Tree.endsInParen]
  | const value =>
    refine (readLeaf_toOption hframes (.const value) _ usage (readConstant_toOption value)).trans ?_
    simp [Tree.fits, Tree.pending, Tree.endsInParen]
  | binary operator left right ihLeft ihRight =>
    obtain ⟨hparens, hleft, hends, hright⟩ := Tree.plain_binary.mp hplain
    obtain ⟨hle, hne⟩ := Tree.leftParens_eq_false.mp hparens
    have hrun := (Tree.pending_spec hleft).2 operator.precedence hends hle hne
    have hge : ∀ frame ∈ frames, operator.precedence ≤ frame.2.precedence := hprecedence
    have hread : ((before ast frames usage).bind fun state =>
        ((Tree.binary operator left right).read ast state).toOption) =
        (((before ast frames usage).bind fun state => (left.read ast state).toOption).bind
          fun state => (readOperator ast operator.1 state).toOption).bind fun state =>
            (readOperand ast (Tree.rightParens operator right) (right.read ast)
              state).toOption := by
      simp only [Tree.read, hparens, toOption_bind, Option.bind_assoc]
      rfl
    rw [hread, ihLeft hleft hframes (fun frame hmem => hle.trans (hge frame hmem)) usage]
    by_cases hfits : left.fits frames.length = true
    swap
    · simp [Tree.fits, hfits]
    have hlength := hrun.length
    have hlt := Tree.fits_chain hfits operator.precedence
    generalize hreduced : Frames.reduce operator.precedence left.pending.1 left.pending.2 = reduced
      at hrun hlength
    rw [if_pos hfits, hends, Bool.not_false, readOperator_toOption, Frames.reduce_append hge,
      hreduced, if_neg (by rw [List.length_append]; omega)]
    have hframes' : ((reduced.2, operator) :: (reduced.1 ++ frames)).length ≤ stackSize := by
      rw [List.length_cons, List.length_append]
      omega
    have hwaiting : ((reduced.2, operator) :: (reduced.1 ++ frames)).length =
        frames.length + left.chain operator.precedence + 1 := by
      rw [List.length_cons, List.length_append]
      omega
    cases hr : Tree.rightParens operator right with
    | true =>
      have hread' := fun usage => ihRight hright
        (by simp : ([] : Frames φ).length ≤ stackSize) (by simp) usage
      simp only [List.append_nil, List.length_nil] at hread'
      rw [readOperand_parens hright hread' hframes' usage, hwaiting]
      simp [Tree.fits, Tree.pending, Tree.endsInParen, hfits, hr, hreduced]
    | false =>
      obtain ⟨hrle, -⟩ := Tree.rightParens_eq_false.mp hr
      have hprecedence' : ∀ frame ∈ (reduced.2, operator) :: (reduced.1 ++ frames),
          right.precedence ≤ frame.2.precedence := by
        intro frame hmem
        rcases List.mem_cons.mp hmem with rfl | hmem
        · exact hrle
        rcases List.mem_append.mp hmem with hmem | hmem
        · exact hrle.trans (hrun.precedence_eq frame hmem).ge
        · exact hrle.trans (hge frame hmem)
      refine (ihRight hright hframes' hprecedence' usage).trans ?_
      rw [hwaiting]
      simp [Tree.fits, Tree.pending, Tree.endsInParen, hfits, hr, hreduced]

end KernelModel.Glsl.Expression
