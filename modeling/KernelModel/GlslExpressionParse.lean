import KernelModel.GlslExpressionRound

/-!
The round trip of printing and parsing an expression.
-/

namespace KernelModel.Glsl.Expression

variable {β φ Node Usage : Type}

/-- The parser makes the node of the text of the tree, and takes the text with what ended it. -/
def ParsesTo (ast : Ast β φ Node Usage) (t : Tree φ) (usage : Usage) (node : Node) : Prop :=
  ∀ (ending : Ending) (endOnComma : Bool) (closing : Token β φ) (rest : List (Token β φ)),
    ending.closes endOnComma closing = true →
      ∃ usage', parseExpression ast ending endOnComma (t.tokens ++ closing :: rest) usage =
        .ok ⟨node, closing, rest, usage'⟩

variable {ast : Ast β φ Node Usage}

lemma parseExpression_eq_ok (t : Tree φ) {ending : Ending} {endOnComma : Bool}
    {closing : Token β φ} (hcloses : ending.closes endOnComma closing = true)
    (rest : List (Token β φ)) (usage usage' : Usage) (node : Node) :
    parseExpression ast ending endOnComma (t.tokens ++ closing :: rest) usage =
        .ok ⟨node, closing, rest, usage'⟩ ↔
      (t.read ast (.start usage) >>= finish ast).toOption = some (node, usage') := by
  rw [parseExpression_tokens ast t hcloses]
  rcases (t.read ast (.start usage) >>= finish ast) with e | ⟨node', usage''⟩
  · simp [Except.toOption]
  · simp [Except.toOption]

lemma plain_of_finish {t : Tree φ} {usage : Usage} {r : Node × Usage}
    (h : (t.read ast (.start usage) >>= finish ast).toOption = some r) : t.plain = true := by
  cases hread : t.read ast (.start usage) >>= finish ast with
  | error e =>
    rw [hread] at h
    cases h
  | ok r' =>
    obtain ⟨state, hstate, hfinish⟩ := bind_eq_ok hread
    exact ((read_flag t hstate rfl).resolve_left (finish_not_stuck hfinish)).1

lemma read_finish {t : Tree φ} (hplain : t.plain = true) (usage : Usage) :
    (t.read ast (.start usage) >>= finish ast).toOption =
      if t.fits 0 then t.regroup.build ast usage else none := by
  have hread := read_toOption ast hplain (by simp : ([] : Frames φ).length ≤ stackSize)
    (by simp) usage
  have hstart : before ast ([] : Frames φ) usage = some (.start usage) := rfl
  rw [hstart] at hread
  rw [toOption_bind]
  refine (congrArg (fun o => o.bind fun state => (finish ast state).toOption) hread).trans ?_
  simp only [List.length_nil, List.append_nil]
  split_ifs
  · exact (finish_toOption _ _ _ usage).trans (by rw [(Tree.pending_spec hplain).1])
  · rfl

lemma parsesTo_of_regroup {t : Tree φ} {usage : Usage} {node : Node} (hplain : t.plain = true)
    (hfits : t.fits 0 = true)
    (hregroup : (t.regroup.build ast usage).map Prod.fst = some node) :
    ParsesTo ast t usage node := by
  intro ending endOnComma closing rest hcloses
  obtain ⟨⟨node', usage'⟩, hnode, rfl⟩ := Option.map_eq_some_iff.mp hregroup
  refine ⟨usage', (parseExpression_eq_ok t hcloses _ _ _ _).mpr ?_⟩
  rw [read_finish hplain, if_pos hfits, hnode]

/-- No left operand is an operator of the precedence of the operator it is under. -/
def Tree.unchained : Tree φ → Prop
  | .binary operator left right =>
    left.precedence ≠ operator.precedence ∧ left.unchained ∧ right.unchained
  | _ => True

lemma Tree.regroup_eq_self {t : Tree φ} (h : t.unchained) : t.regroup = t := by
  induction t with
  | binary operator left right ihLeft ihRight =>
    obtain ⟨hne, hleft, hright⟩ := h
    rw [regroup, ihLeft hleft, ihRight hright, attach_of_ne hne]
  | _ => rfl

/-- A tree without runs of one precedence is parsed back, when no operator of its text stands
behind a parenthesis. -/
theorem parsesTo_of_unchained {t : Tree φ} {usage : Usage} {node : Node}
    (hplain : t.plain = true) (hfits : t.fits 0 = true) (hchain : t.unchained)
    (hbuild : (t.build ast usage).map Prod.fst = some node) : ParsesTo ast t usage node :=
  parsesTo_of_regroup hplain hfits (by rw [Tree.regroup_eq_self hchain, hbuild])

namespace Scalar

/-- The builtin types of the rows below. -/
inductive Ty where
  | bool
  | int
  deriving DecidableEq

inductive Value where
  | var (name : String) (type : Ty)
  | varConst (value : Constant Empty)
  | operator (operator : Operator) (type : Ty) (left right : Value)
  deriving DecidableEq

def Value.type : Value → Ty
  | .var _ type => type
  | .varConst (.bool _) => .bool
  | .varConst (.int _) => .int
  | .operator _ type _ _ => type

/-- The rows of the `binary` functions for two scalars. -/
def matchRow : Operator → Ty → Ty → Option Ty
  | .add, .int, .int | .and, .int, .int | .div, .int, .int | .lsh, .int, .int | .mod, .int, .int
  | .mul, .int, .int | .or, .int, .int | .rsh, .int, .int | .sub, .int, .int | .xor, .int, .int =>
    some .int
  | .geq, .int, .int | .leq, .int, .int | .less, .int, .int | .more, .int, .int => some .bool
  | .equ, left, right | .neq, left, right => if left = right then some .bool else none
  | .land, .bool, .bool | .lor, .bool, .bool => some .bool
  | .equal, left, right => if left = right then some left else none
  | _, _, _ => none

/-- `_mark_read_usage_recursive`, where every variable may be read. The usage is the initialized
variables. -/
def markReadUsage (usage : List String) : Value → Except (Error Ty) Unit
  | .varConst _ => .ok ()
  | .operator .equal _ _ _ => .ok ()
  | .operator _ _ left right => do
    markReadUsage usage left
    markReadUsage usage right
  | .var name _ => if name ∈ usage then .ok () else .error (.uninitializedVar name)

/-- `_check_lvalue`, where every variable may be written. -/
def checkLvalue (usage : List String) : Value → Except (Error Ty) (List String)
  | .var name _ => .ok (name :: usage)
  | _ => .error .invalidLvalue

/-- The `binary` functions. The assignments with an operator only report an error, and so does
`_lor_binary` behind its row. -/
def binary (operator : Operator) (left right : Value) (usage : List String) :
    Except (Error Ty) (Option Value × List String) :=
  let node := (matchRow operator left.type right.type).map (.operator operator · left right)
  match operator with
  | .equal => do
    let usage ← checkLvalue usage left
    markReadUsage usage right
    .ok (node, usage)
  | .lor => if node.isSome then .ok (node, usage) else .error .unimplemented
  | .addAssign | .divAssign | .lshAssign | .modAssign | .mulAssign | .rshAssign | .subAssign =>
    .error .unimplemented
  | _ => .ok (node, usage)

/-- The expressions over some variables of scalar types, without calls and members. -/
def scalars (vars : List (String × Ty)) : Ast Ty Empty Value (List String) where
  valueType node := .builtin node.type
  lookupVar name := (vars.find? (·.1 = name)).map fun (name, type) => .var name type
  constant := .varConst
  binary := binary
  constructorCall _ _ := .error .unimplemented
  internalFunction _ _ := none
  member _ name := .error (.memberNotFound name)

end Scalar

/-- The tree of `a-b*c`. -/
def productTree : Tree Empty :=
  .binary ⟨.sub, rfl⟩ (.var "a") (.binary ⟨.mul, rfl⟩ (.var "b") (.var "c"))

/-- The tree of `a-b-c`. -/
def differenceTree : Tree Empty :=
  .binary ⟨.sub, rfl⟩ (.binary ⟨.sub, rfl⟩ (.var "a") (.var "b")) (.var "c")

/-- The tree of `(a-b)*c`. -/
def parenTree : Tree Empty :=
  .binary ⟨.mul, rfl⟩ (.binary ⟨.sub, rfl⟩ (.var "a") (.var "b")) (.var "c")

def threeInts : Ast Scalar.Ty Empty Scalar.Value (List String) :=
  Scalar.scalars [("a", .int), ("b", .int), ("c", .int)]

end KernelModel.Glsl.Expression
