import KernelModel.ShellTokens

/-!
The interpreter of the shell.

It runs the commands of a line while it reads them. What a command does is a parameter: the value
it returns, and whether it closes the session.
-/

namespace KernelModel.Shell

/-! ### Commands -/

/-- What a command reads from or writes to; a pipe has the number of the command in front of it. -/
inductive Stream (α : Type)
  | standard
  | read (name : α)
  | write (name : α)
  | append (name : α)
  | pipe (index : ℕ)
  deriving DecidableEq

/-- `shell_command_context_t` -/
structure Command (α : Type) where
  argv : List α
  stdin : Stream α
  stdout : Stream α
  deriving DecidableEq

/-- `shell_command_context_create` -/
def Command.create {α : Type} : Command α := ⟨[], .standard, .standard⟩

/-- What the name of a command leads to. -/
inductive Target
  | builtin (returnValue : Int64) (closesSession : Bool)
  | process (started : Bool) (returnValue : Int64)
  | missing

/-- What the interpreter finds around it. The value of a variable depends on the last value that
the environment has, and the commands of a line are numbered from zero. -/
structure World where
  getVariable : Int64 → List UInt8 → Option (List UInt8)
  opens : Stream (List UInt8) → Bool
  target : ℕ → Target

/-- `ctx->return_value` of a command with a name. -/
def Target.returnValue (wait : Bool) : Target → Int64
  | .builtin value _ => value
  | .process true value => if wait then value else 0
  | .process false _ => 0
  | .missing => -1

def Target.closesSession : Target → Bool
  | .builtin _ closes => closes
  | _ => false

/-! ### The state -/

/-- `COMMAND_EXECUTE_MODIFIER_` -/
inductive ExecuteModifier
  | always
  | and
  | or
  deriving DecidableEq

/-- `_check_execute` -/
def checkExecute (lastCommandReturnValue : Int64) : ExecuteModifier → Bool
  | .always => true
  | .and => lastCommandReturnValue = 0
  | .or => lastCommandReturnValue ≠ 0

/-- A command that `shell_command_context_dispatch` calls or starts, or reports as missing. -/
structure Dispatch where
  index : ℕ
  command : Command (List UInt8)
  wait : Bool
  deriving DecidableEq

/-- The locals of `shell_interpreter_execute` and the fields of the environment that it uses, with
the number of the command that is read and the commands dispatched so far. -/
structure Interpreter where
  executeModifier : ExecuteModifier
  lastCommandReturnValue : Int64
  ctx : Command (List UInt8)
  lastReturnValue : Int64
  closeCurrentSession : Bool
  index : ℕ
  dispatched : List Dispatch

namespace Interpreter

variable (w : World) (i : Interpreter)

/-- `shell_command_context_dispatch`, with the value that it leaves in the context. -/
def dispatch (wait : Bool) : Interpreter × Int64 :=
  if i.ctx.argv = [] then (i, 0)
  else
    ({ i with
        closeCurrentSession := i.closeCurrentSession || (w.target i.index).closesSession
        dispatched := i.dispatched ++ [⟨i.index, i.ctx, wait⟩] },
      (w.target i.index).returnValue wait)

def executes : Bool := checkExecute i.lastCommandReturnValue i.executeModifier

/-- A command that is waited for. -/
def finish : Interpreter :=
  if i.executes then
    { (i.dispatch w true).1 with lastCommandReturnValue := (i.dispatch w true).2 }
  else i

/-- A command that is not waited for. -/
def start : Interpreter := if i.executes then (i.dispatch w false).1 else i

/-- The next command is read. -/
def next (executeModifier : ExecuteModifier) : Interpreter :=
  { i with ctx := .create, executeModifier := executeModifier, index := i.index + 1 }

/-- The line ends where a command has closed the session. -/
def await : Except Interpreter Interpreter :=
  if i.executes ∧ (i.finish w).closeCurrentSession then .error (i.finish w) else .ok (i.finish w)

def pipe : Interpreter :=
  let i' := (start w { i with ctx.stdout := .pipe i.index }).next .always
  { i' with ctx.stdin := .pipe i.index }

/-- `;` and a newline -/
def sequence : Interpreter :=
  { i.next .always with
    lastReturnValue := i.lastCommandReturnValue
    lastCommandReturnValue := 0 }

/-- What is done with a token; an error goes to `_cleanup`. -/
def token : Token → Except Interpreter Interpreter
  | .argument str => .ok { i with ctx.argv := i.ctx.argv ++ [str] }
  | .read str => if w.opens (.read str) then .ok { i with ctx.stdin := .read str } else .error i
  | .write str =>
    if w.opens (.write str) then .ok { i with ctx.stdout := .write str } else .error i
  | .append str =>
    if w.opens (.append str) then .ok { i with ctx.stdout := .append str } else .error i
  | .or => (i.await w).map fun i => i.next .or
  | .pipe => if w.opens (.pipe i.index) then .ok (i.pipe w) else .error i
  | .and => (i.await w).map fun i => i.next .and
  | .background => .ok { (i.start w).next .always with lastCommandReturnValue := 0 }
  | .sequence => (i.await w).map fun i => i.sequence

def tokens (i : Interpreter) : List Token → Except Interpreter Interpreter
  | [] => .ok i
  | token :: tokens =>
    match i.token w token with
    | .error i => .error i
    | .ok i => i.tokens tokens

end Interpreter

/-! ### The loop -/

/-- The main loop, up to `_cleanup`. A round takes a character at least. -/
def executeFrom (w : World) : ℕ → State → Interpreter → List UInt8 → Option Interpreter
  | 0, _, _, _ => none
  | _ + 1, _, i, [] => some (i.finish w)
  | n + 1, state, i, c :: command =>
    if isWhitespace c then executeFrom w n state i command
    else
      match takeOperator (c :: command) with
      | some (state', tokens, command) =>
        if state = .arguments ∨ state = .operator then
          match i.tokens w tokens with
          | .error i => some i
          | .ok i => executeFrom w n state' i command
        else some i
      | none =>
        match readWord (w.getVariable i.lastReturnValue) (c :: command) with
        | none => some i
        | some (str, command) =>
          match state.word str with
          | none => some i
          | some (state, token) =>
            match i.token w token with
            | .error i => some i
            | .ok i => executeFrom w n state i command

/-- The interpreter at the start of a line. -/
def Interpreter.init (lastReturnValue : Int64) (closeCurrentSession : Bool) : Interpreter :=
  ⟨.always, 0, .create, lastReturnValue, closeCurrentSession, 0, []⟩

/-- `shell_interpreter_execute` -/
def execute (w : World) (lastReturnValue : Int64) (closeCurrentSession : Bool)
    (command : List UInt8) : Option Interpreter :=
  (executeFrom w (command.length + 1) .arguments
      (.init lastReturnValue closeCurrentSession) command).map
    fun i => { i with lastReturnValue := i.lastCommandReturnValue }

/-! ### A line is read to its end -/

lemma length_readQuoted {command : List UInt8} {word : List UInt8 × List UInt8}
    (h : readQuoted command = some word) : word.2.length < command.length := by
  fun_induction readQuoted command generalizing word with
  | case2 command =>
    cases h
    exact Nat.lt_succ_self _
  | case5 d command _ str rest hrest _ _ _ ih =>
    cases h
    have hlt : rest.length < command.length := ih hrest
    exact Nat.lt_succ_of_lt (Nat.lt_succ_of_lt hlt)
  | case7 d command _ _ _ str rest hrest ih =>
    cases h
    have hlt : rest.length < command.length := ih hrest
    exact Nat.lt_succ_of_lt hlt
  | _ => cases h

lemma length_readPlain {command : List UInt8} {word : List UInt8 × List UInt8}
    (h : readPlain command = some word) : word.2.length ≤ command.length := by
  fun_induction readPlain command generalizing word with
  | case1 | case2 =>
    cases h
    exact le_rfl
  | case4 d command str rest hrest _ _ ih =>
    cases h
    have hle : rest.length ≤ command.length := ih hrest
    exact Nat.le_succ_of_le (Nat.le_succ_of_le hle)
  | case6 d command _ _ str rest hrest ih =>
    cases h
    have hle : rest.length ≤ command.length := ih hrest
    exact Nat.le_succ_of_le hle
  | _ => cases h

lemma length_readPlain_cons {c : UInt8} {command : List UInt8} {word : List UInt8 × List UInt8}
    (hc : isValidCharacter c) (h : readPlain (c :: command) = some word) :
    word.2.length ≤ command.length := by
  by_cases hb : c = Ascii.backslash
  · rcases command with _ | ⟨d, command⟩
    · subst hb
      rw [readPlain.eq_def] at h
      simp [hc] at h
    · rw [readPlain.eq_def] at h
      simp only [hc, not_true_eq_false, if_false, if_pos hb] at h
      split at h
      · next str rest _ hrest =>
        cases h
        have hle : rest.length ≤ command.length := length_readPlain hrest
        exact Nat.le_succ_of_le hle
      · cases h
  · rw [readPlain.eq_def] at h
    simp only [hc, not_true_eq_false, if_false, if_neg hb] at h
    split at h
    · next str rest hrest =>
      cases h
      have hle : rest.length ≤ command.length := length_readPlain hrest
      exact hle
    · cases h

lemma length_readWord {getVariable : List UInt8 → Option (List UInt8)} {c : UInt8}
    {command : List UInt8} {word : List UInt8 × List UInt8}
    (h : readWord getVariable (c :: command) = some word) :
    word.2.length ≤ command.length := by
  rw [readWord] at h
  split_ifs at h with hquote hvalid
  · exact (length_readQuoted h).le
  · split at h
    · next hplain =>
      have hlen := length_readPlain_cons hvalid hplain
      split_ifs at h <;> cases h <;> exact hlen
    · cases h

lemma length_takeOperator {c : UInt8} {command rest : List UInt8} {state : State}
    {tokens : List Token} (h : takeOperator (c :: command) = some (state, tokens, rest)) :
    rest.length ≤ command.length := by
  have htail : command.tail.length ≤ command.length := by simp
  simp only [takeOperator] at h
  split_ifs at h <;> cases h <;> first | exact htail | exact le_rfl

/-- Every round of the loop takes a character, so the fuel is enough: a line is read to its end, or
to the first error in it. -/
lemma executeFrom_terminates (w : World) {n : ℕ} {state : State} {i : Interpreter}
    {command : List UInt8} (hn : command.length < n) :
    ∃ i', executeFrom w n state i command = some i' := by
  induction n generalizing state i command with
  | zero => exact absurd hn (Nat.not_lt_zero _)
  | succ n ih =>
    rcases command with _ | ⟨c, command⟩
    · exact ⟨_, rfl⟩
    · have hn' : command.length < n := Nat.lt_of_succ_lt_succ hn
      rw [executeFrom]
      split
      · exact ih hn'
      · split
        · next htake =>
          have hrest := (length_takeOperator htake).trans_lt hn'
          split
          · split
            · exact ⟨_, rfl⟩
            · exact ih hrest
          · exact ⟨_, rfl⟩
        · split
          · exact ⟨_, rfl⟩
          · next hread =>
            have hrest := (length_readWord hread).trans_lt hn'
            split
            · exact ⟨_, rfl⟩
            · split
              · exact ⟨_, rfl⟩
              · exact ih hrest

/-- `shell_interpreter_execute` ends on every string. -/
theorem execute_terminates (w : World) (lastReturnValue : Int64) (closeCurrentSession : Bool)
    (command : List UInt8) :
    ∃ i, execute w lastReturnValue closeCurrentSession command = some i := by
  obtain ⟨i, hi⟩ : ∃ i, executeFrom w (command.length + 1) .arguments
      (.init lastReturnValue closeCurrentSession) command = some i :=
    executeFrom_terminates w (Nat.lt_succ_self command.length)
  rw [execute, hi]
  exact ⟨_, rfl⟩

end KernelModel.Shell
