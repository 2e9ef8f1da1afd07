import KernelModel.InterfaceAllocator

/-!
Linking a vertex and a fragment shader: every variable gets its slots.

Each allocation goes twice over the variables, first over those whose slots the shader gives and
then over the others. What a backend makes of the shaders afterwards does not touch the slots.
-/

namespace KernelModel.Glsl

/-- `glsl_compilation_output_var_type_t` -/
inductive VarType
  | input
  | output
  | uniform
  | sampler
  | builtinPosition
  deriving DecidableEq, Repr

/-- `glsl_compilation_output_var_t` -/
structure Var where
  type : VarType
  slotCount : ℕ
  slot : ℕ
  name : String
  deriving DecidableEq, Repr

def Var.hasSlot (v : Var) : Bool := v.slot ≠ noSlot

/-- The variables of a compiled shader. The parser refuses a name that is already defined, and a
type takes one to four slots. -/
structure Shader where
  vars : List Var
  nodup : (vars.map Var.name).Nodup
  counts : ∀ v ∈ vars, 1 ≤ v.slotCount ∧ v.slotCount ≤ 4

/-- `glsl_linker_linked_program_uniform_t` -/
structure Uniform where
  name : String
  slot : ℕ
  slotCount : ℕ
  samplerIndex : ℕ

/-- `glsl_linker_linked_program_t`, as far as the slots go. -/
structure LinkedProgram where
  uniforms : List Uniform
  uniformSlotCount : ℕ

inductive LinkError
  | missingShader (isVertex : Bool)
  | unlinkedVar (name : String) (isOutput : Bool)
  | wrongType (name : String) (outputSlotCount inputSlotCount : ℕ)
  | inconsistentLayout (name : String)
  | unallocatableLayout (name : String)
  deriving DecidableEq, Repr

def LinkError.text : LinkError → String
  | missingShader isVertex => (if isVertex then "Vertex" else "Fragment") ++ " shader missing"
  | unlinkedVar name isOutput =>
    (if isOutput then "Output" else "Input") ++ " variable '" ++ name ++
      "' is not declared in " ++ (if isOutput then "next" else "previous") ++ " shader stage"
  | wrongType name outputSlotCount inputSlotCount =>
    "Types of variable '" ++ name ++ "' do not match: " ++ toString outputSlotCount ++ " and " ++
      toString inputSlotCount ++ " slots"
  | inconsistentLayout name => "Variable '" ++ name ++ "' has an inconsistent layout declaration"
  | unallocatableLayout name => "Variable '" ++ name ++ "' cannot be allocated"

/-- Linking reports an error, or reads a word outside of a bitmap. -/
inductive Failure
  | error (e : LinkError)
  | outside
  deriving DecidableEq, Repr

def glMaxVertexAttribs : ℕ := 16

def glMaxVertexUniformComponents : ℕ := 1024

def glMaxFragmentInputComponents : ℕ := 128

/-- The slots of a variable, or the error that it has none. -/
def reserveVar (a : Allocator) (v : Var) : Except Failure (ℕ × Allocator) :=
  match a.reserve v.slot v.slotCount 1 with
  | .ok r => .ok r
  | .error .full => .error (.error (.unallocatableLayout v.name))
  | .error .outside => .error .outside

/-- One pass of `_allocate_slots`. -/
def allocatePass (type : VarType) (hasSlot : Bool) :
    List Var → Allocator → Except Failure (List Var × Allocator)
  | [], a => .ok ([], a)
  | v :: vars, a =>
    if v.type = type ∧ v.hasSlot = hasSlot then do
      let (slot, a) ← reserveVar a v
      let (vars, a) ← allocatePass type hasSlot vars a
      .ok ({ v with slot := slot } :: vars, a)
    else do
      let (vars, a) ← allocatePass type hasSlot vars a
      .ok (v :: vars, a)

/-- `_allocate_slots` -/
def allocateSlots (heap : ℕ → BitVec 32) (vars : List Var) (type : VarType) (maxSlots : ℕ) :
    Except Failure (List Var) := do
  let (vars, a) ← allocatePass type true vars (.init heap maxSlots)
  let (vars, _) ← allocatePass type false vars a
  .ok vars

/-- The loop over the inputs, for one output. -/
def linkOutput (hasSlot : Bool) (v : Var) (a : Allocator) :
    List Var → Except Failure (ℕ × List Var × Allocator)
  | [] => .error (.error (.unlinkedVar v.name true))
  | w :: inputs =>
    if w.type ≠ .input ∨ w.hasSlot ≠ hasSlot ∨ w.name ≠ v.name then do
      let (slot, inputs, a) ← linkOutput hasSlot v a inputs
      .ok (slot, w :: inputs, a)
    else if w.slotCount ≠ v.slotCount then
      .error (.error (.wrongType v.name v.slotCount w.slotCount))
    else if v.slot ≠ w.slot then .error (.error (.inconsistentLayout v.name))
    else do
      let (slot, a) ← reserveVar a v
      .ok (slot, { w with slot := slot } :: inputs, a)

/-- One pass of `_check_compatibility`. -/
def checkPass (hasSlot : Bool) :
    List Var → List Var → Allocator → Except Failure (List Var × List Var × Allocator)
  | [], inputs, a => .ok ([], inputs, a)
  | v :: outputs, inputs, a =>
    if v.hasSlot ≠ hasSlot then do
      let (outputs, inputs, a) ← checkPass hasSlot outputs inputs a
      .ok (v :: outputs, inputs, a)
    else if v.type = .builtinPosition then do
      let (slot, a) ← reserveVar a v
      let (outputs, inputs, a) ← checkPass hasSlot outputs inputs a
      .ok ({ v with slot := slot } :: outputs, inputs, a)
    else if v.type ≠ .output then do
      let (outputs, inputs, a) ← checkPass hasSlot outputs inputs a
      .ok (v :: outputs, inputs, a)
    else do
      let (slot, inputs, a) ← linkOutput hasSlot v a inputs
      let (outputs, inputs, a) ← checkPass hasSlot outputs inputs a
      .ok ({ v with slot := slot } :: outputs, inputs, a)

/-- The loop over the inputs that are left. -/
def checkInputs : List Var → Except Failure Unit
  | [] => .ok ()
  | w :: inputs =>
    if w.type ≠ .input ∨ w.hasSlot = true then checkInputs inputs
    else .error (.error (.unlinkedVar w.name false))

/-- `_check_compatibility` -/
def checkCompatibility (heap : ℕ → BitVec 32) (outputs inputs : List Var) (maxSlots : ℕ) :
    Except Failure (List Var × List Var) := do
  let (outputs, inputs, a) ← checkPass true outputs inputs (.init heap maxSlots)
  let (outputs, inputs, _) ← checkPass false outputs inputs a
  checkInputs inputs
  .ok (outputs, inputs)

/-- A uniform or a sampler. -/
def Var.isGlobal (v : Var) : Bool := v.type = .uniform ∨ v.type = .sampler

/-- The list with one more uniform. -/
def LinkedProgram.push (l : LinkedProgram) (v : Var) (slot samplerIndex : ℕ) : LinkedProgram where
  uniforms := l.uniforms ++ [{
    name := v.name
    slot := slot
    slotCount := v.slotCount
    samplerIndex := if v.type = .sampler then samplerIndex else 0xffffffff }]
  uniformSlotCount :=
    if slot + v.slotCount > l.uniformSlotCount then slot + v.slotCount else l.uniformSlotCount

/-- One pass of `_allocate_global_slots` over one shader. -/
def globalPass (hasSlot : Bool) : List Var → ℕ → LinkedProgram → Allocator →
    Except Failure (List Var × LinkedProgram × Allocator)
  | [], _, l, a => .ok ([], l, a)
  | v :: vars, samplerIndex, l, a =>
    let nextIndex := samplerIndex + if v.type = .sampler then 1 else 0
    if v.isGlobal ∧ v.hasSlot = hasSlot then
      match l.uniforms.find? (·.name = v.name) with
      | some u =>
        if v.slot ≠ noSlot ∧ v.slot ≠ u.slot then .error (.error (.inconsistentLayout v.name))
        else if v.slotCount ≠ u.slotCount then
          .error (.error (.wrongType v.name v.slotCount u.slotCount))
        else do
          let (vars, l, a) ← globalPass hasSlot vars nextIndex l a
          .ok ({ v with slot := u.slot } :: vars, l, a)
      | none => do
        let (slot, a) ← reserveVar a v
        let (vars, l, a) ← globalPass hasSlot vars nextIndex (l.push v slot samplerIndex) a
        .ok ({ v with slot := slot } :: vars, l, a)
    else do
      let (vars, l, a) ← globalPass hasSlot vars nextIndex l a
      .ok (v :: vars, l, a)

/-- `_allocate_global_slots` -/
def allocateGlobalSlots (heap : ℕ → BitVec 32) (vertex fragment : List Var) :
    Except Failure (List Var × List Var × LinkedProgram) := do
  let a := Allocator.init heap glMaxVertexUniformComponents
  let (vertex, l, a) ← globalPass true vertex 0 ⟨[], 0⟩ a
  let (fragment, l, a) ← globalPass true fragment 0 l a
  let (vertex, l, a) ← globalPass false vertex 0 l a
  let (fragment, l, _) ← globalPass false fragment 0 l a
  .ok (vertex, fragment, l)

/-- The shaders and the uniforms of a program that was linked. -/
structure Linked where
  vertex : List Var
  fragment : List Var
  program : LinkedProgram

/-- `glsl_linker_program_link` without a backend; each bitmap is found on the heap with bits of
its own. -/
def programLink (heap : ℕ → ℕ → BitVec 32) (vertex fragment : Option (List Var)) :
    Except Failure Linked :=
  match vertex, fragment with
  | none, _ => .error (.error (.missingShader true))
  | some _, none => .error (.error (.missingShader false))
  | some vertex, some fragment => do
    let vertex ← allocateSlots (heap 0) vertex .input glMaxVertexAttribs
    let fragment ← allocateSlots (heap 1) fragment .output 1
    let (vertex, fragment) ←
      checkCompatibility (heap 2) vertex fragment glMaxFragmentInputComponents
    let (vertex, fragment, program) ← allocateGlobalSlots (heap 3) vertex fragment
    .ok ⟨vertex, fragment, program⟩

end KernelModel.Glsl
