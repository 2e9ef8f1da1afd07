import KernelModel.ShellLine

/-!
The interpreter runs a line as the grammar says, up to the first pipeline of several commands that
is skipped, or the first place without a command where the last pipeline has not returned zero.

The pipe of a skipped command is forgotten with it: the commands behind it run always. And where
there is no command, as behind the separator at the end of a line, the interpreter runs one that
returns zero.
-/

namespace KernelModel.Shell

variable {w : World} {i : Interpreter} {s : Status}

/-! ### The interpreter on a line -/

/-- The context of the command that is read. -/
def Interpreter.load (w : World) (i : Interpreter) (c : Command Word) : Interpreter :=
  { i with ctx := c.expand w i.lastReturnValue }

/-- The commands of a pipeline in front of the last one, which is left to `k`. -/
def Pipeline.execute (w : World) (k : Command Word → Interpreter → Interpreter) :
    Pipeline → Interpreter → Interpreter
  | .command c, i => k c i
  | .pipe c p, i => p.execute w k ((i.load w c).pipe w)

def Line.execute (w : World) : Line → Interpreter → Interpreter
  | .pipeline p, i => p.execute w (fun c i => (i.load w c).finish w) i
  | .join p connector rest, i =>
    p.execute w
      (fun c i =>
        match (i.load w c).token w connector.token with
        | .error i => i
        | .ok i => rest.execute w i) i

lemma execute_push (c : Command Word) (line : Line) :
    (line.push c).execute w i = line.execute w ((i.load w c).pipe w) := by
  cases line <;> rfl

lemma load_eq {c : Command Word} (hctx : i.ctx = c.expand w i.lastReturnValue) :
    i.load w c = i := by
  rw [Interpreter.load, ← hctx]

lemma execute_ctx (line : Line) (ctx : Command (List UInt8)) :
    line.execute w { i with ctx := ctx } = line.execute w i := by
  rcases line with p | ⟨p, connector, rest⟩ <;> cases p <;> rfl

@[simp] lemma index_dispatch (wait : Bool) : (i.dispatch w wait).1.index = i.index := by
  rw [Interpreter.dispatch]
  split_ifs <;> rfl

@[simp] lemma index_finish : (i.finish w).index = i.index := by
  rw [Interpreter.finish]
  split_ifs
  · exact index_dispatch true
  · rfl

@[simp] lemma index_start : (i.start w).index = i.index := by
  rw [Interpreter.start]
  split_ifs
  · exact index_dispatch false
  · rfl

lemma connect_ctx {connector : Connector} {i' : Interpreter}
    (h : i.token w connector.token = .ok i') : i'.ctx = .create ∧ i'.index = i.index + 1 := by
  have hawait {i'} (h : i.await w = .ok i') : i'.index = i.index := by
    rw [Interpreter.await] at h
    split_ifs at h
    cases h
    exact index_finish
  cases connector with
  | background =>
    cases h
    exact ⟨rfl, congrArg (· + 1) index_start⟩
  | _ =>
    simp only [Connector.token, Interpreter.token] at h
    rcases hi : i.await w with i₀ | i₀
    · rw [hi] at h
      cases h
    · rw [hi] at h
      cases h
      exact ⟨rfl, congrArg (· + 1) (hawait hi)⟩

lemma execute_lexeme (hopens : ∀ stream, w.opens stream = true) {c : Command Word}
    (hctx : i.ctx = c.expand w i.lastReturnValue) (lexeme : Lexeme) (lexemes : List Lexeme) :
    match i.token w (lexeme.token (w.getVariable i.lastReturnValue)) with
    | .error i' => (parseFrom i.index c (lexeme :: lexemes)).execute w i = i'
    | .ok i' => ∃ c', i'.ctx = Command.expand w i'.lastReturnValue c' ∧
        (parseFrom i.index c (lexeme :: lexemes)).execute w i =
          (parseFrom i'.index c' lexemes).execute w i' := by
  cases lexeme with
  | argument word =>
    refine ⟨{ c with argv := c.argv ++ [word] }, ?_, (execute_ctx _ _).symm⟩
    simp only [hctx, Command.expand, Command.map, List.map_append, List.map_cons, List.map_nil]
  | read word =>
    simp only [Lexeme.token, Interpreter.token, hopens, if_true]
    refine ⟨{ c with stdin := .read word }, ?_, (execute_ctx _ _).symm⟩
    simp only [hctx, Command.expand, Command.map, Stream.map]
  | write word =>
    simp only [Lexeme.token, Interpreter.token, hopens, if_true]
    refine ⟨{ c with stdout := .write word }, ?_, (execute_ctx _ _).symm⟩
    simp only [hctx, Command.expand, Command.map, Stream.map]
  | append word =>
    simp only [Lexeme.token, Interpreter.token, hopens, if_true]
    refine ⟨{ c with stdout := .append word }, ?_, (execute_ctx _ _).symm⟩
    simp only [hctx, Command.expand, Command.map, Stream.map]
  | pipe =>
    simp only [Lexeme.token, Interpreter.token, hopens, if_true]
    refine ⟨⟨[], .pipe i.index, .standard⟩, rfl, ?_⟩
    have hindex : (i.pipe w).index = i.index + 1 := by
      simp only [Interpreter.pipe, Interpreter.next, index_start]
    rw [parseFrom, execute_push, load_eq hctx, hindex]
  | connect connector =>
    simp only [Lexeme.token]
    have hexecute : (parseFrom i.index c (.connect connector :: lexemes)).execute w i =
        match i.token w connector.token with
        | .error i => i
        | .ok i' => (parseFrom (i.index + 1) .create lexemes).execute w i' := by
      rw [parseFrom, Line.execute, Pipeline.execute, load_eq hctx]
    rcases hi : i.token w connector.token with i' | i'
    · rw [hexecute, hi]
    · obtain ⟨hctx', hindex⟩ := connect_ctx hi
      refine ⟨.create, hctx', ?_⟩
      rw [hexecute, hi, hindex]

lemma takeOperator_tokens {command rest : List UInt8} {state : State} {tokens : List Token}
    (h : takeOperator command = some (state, tokens, rest)) :
    tokens = [] ∨ ∃ token, tokens = [token] := by
  rcases command with _ | ⟨c, command⟩
  · cases h
  · simp only [takeOperator] at h
    split_ifs at h <;> cases h <;> first | exact .inl rfl | exact .inr ⟨_, rfl⟩

lemma executeFrom_eq (hopens : ∀ stream, w.opens stream = true) {n : ℕ} {state : State}
    {command : List UInt8} {c : Command Word} {lexemes : List Lexeme}
    (hctx : i.ctx = c.expand w i.lastReturnValue)
    (hlex : lexFrom n state command = some lexemes) :
    executeFrom w n state i command = some ((parseFrom i.index c lexemes).execute w i) := by
  induction n generalizing state i command c lexemes with
  | zero => cases hlex
  | succ n ih =>
    -- one token, and the rest of the line by induction
    have hstep (lexeme : Lexeme) {state rest lexemes}
        (hrest : lexFrom n state rest = some lexemes) :
        (match i.token w (lexeme.token (w.getVariable i.lastReturnValue)) with
          | .error i => some i
          | .ok i => executeFrom w n state i rest) =
          some ((parseFrom i.index c (lexeme :: lexemes)).execute w i) := by
      have hline := execute_lexeme hopens hctx lexeme lexemes
      generalize i.token w (lexeme.token (w.getVariable i.lastReturnValue)) = out at hline ⊢
      rcases out with i' | i'
      · exact congrArg some hline.symm
      · obtain ⟨c', hctx', heq⟩ := hline
        rw [heq]
        exact ih hctx' hrest
    rcases command with _ | ⟨b, command⟩
    · cases hlex
      rw [executeFrom, parseFrom, Line.execute, Pipeline.execute, load_eq hctx]
    · rw [lexFrom] at hlex
      rw [executeFrom]
      by_cases hspace : isWhitespace b
      · rw [if_pos hspace] at hlex ⊢
        exact ih hctx hlex
      · rw [if_neg hspace] at hlex ⊢
        rcases htake : takeOperator (b :: command) with _ | ⟨state', tokens, rest⟩
        · rw [htake] at hlex
          simp only [readWord_eq] at hlex ⊢
          rcases hword : lexWord (b :: command) with _ | ⟨word, rest⟩
          · rw [hword] at hlex
            cases hlex
          · rw [hword] at hlex
            simp only [Option.map_some, word_eq] at hlex ⊢
            rcases hlexeme : state.lexeme word with _ | ⟨state', lexeme⟩
            · rw [hlexeme] at hlex
              cases hlex
            · rw [hlexeme] at hlex
              obtain ⟨lexemes', hrest, rfl⟩ := Option.map_eq_some_iff.mp hlex
              exact hstep lexeme hrest
        · rw [htake] at hlex
          simp only at hlex ⊢
          split_ifs at hlex with hstate
          rw [if_pos hstate]
          obtain ⟨lexemes', hrest, rfl⟩ := Option.map_eq_some_iff.mp hlex
          rcases takeOperator_tokens htake with rfl | ⟨token, rfl⟩
          · exact ih hctx hrest
          · have htoken := hstep token.lexeme hrest
            rw [token_lexeme] at htoken
            rw [List.map_cons, List.map_nil, List.singleton_append, ← htoken]
            simp only [Interpreter.tokens]
            rcases i.token w token with i' | i' <;> rfl

/-! ### A pipeline that runs -/

section

variable {wait : Bool}

@[simp] lemma dispatched_dispatch :
    (i.dispatch w wait).1.dispatched = i.dispatched ++ i.ctx.dispatches i.index wait := by
  rw [Interpreter.dispatch, Command.dispatches]
  split_ifs
  · exact (List.append_nil _).symm
  · rfl

@[simp] lemma lastReturnValue_dispatch :
    (i.dispatch w wait).1.lastReturnValue = i.lastReturnValue := by
  rw [Interpreter.dispatch]
  split_ifs <;> rfl

lemma argv_expand {c : Command Word} {value : Int64} :
    (c.expand w value).argv = [] ↔ c.argv = [] := List.map_eq_nil_iff

lemma closed_dispatch {c : Command Word} (hargv : i.ctx.argv = [] ↔ c.argv = []) :
    (i.dispatch w wait).1.closeCurrentSession =
      (i.closeCurrentSession || c.closes w i.index) := by
  rw [Interpreter.dispatch, Command.closes]
  by_cases hc : c.argv = []
  · rw [if_pos (hargv.mpr hc)]
    simp [hc]
  · rw [if_neg (hargv.not.mpr hc)]
    simp [hc]

lemma returnValue_dispatch {c : Command Word} :
    ((i.load w c).dispatch w true).2 = c.returnValue w i.index := by
  rw [Interpreter.dispatch, Command.returnValue]
  by_cases hc : c.argv = []
  · rw [if_pos hc]
    exact congrArg Prod.snd (if_pos (argv_expand.mpr hc))
  · rw [if_neg hc]
    exact congrArg Prod.snd (if_neg (argv_expand.not.mpr hc))

end

/-- The last command of a pipeline. -/
def Pipeline.final : Pipeline → Command Word
  | .command c => c
  | .pipe _ p => p.final

/-- The commands in front of the last one have run between two states. -/
structure Piped (w : World) (p : Pipeline) (i i' : Interpreter) : Prop where
  executes : i'.executes
  index : i'.index + 1 = i.index + p.length
  value : i'.lastReturnValue = i.lastReturnValue
  closed : (i'.closeCurrentSession || p.final.closes w i'.index) =
    (i.closeCurrentSession || p.closes w i.index)
  returns : p.final.returnValue w i'.index = p.returnValue w i.index
  dispatched : ∀ wait,
    i'.dispatched ++ (p.final.expand w i.lastReturnValue).dispatches i'.index wait =
      i.dispatched ++ p.dispatches w i.lastReturnValue wait i.index

lemma pipe_executes (hi : i.executes) (c : Command Word) :
    ((i.load w c).pipe w).lastReturnValue = i.lastReturnValue ∧
      ((i.load w c).pipe w).closeCurrentSession =
        (i.closeCurrentSession || c.closes w i.index) ∧
      ((i.load w c).pipe w).dispatched = i.dispatched ++ Command.dispatches i.index false
        { c.expand w i.lastReturnValue with stdout := .pipe i.index } := by
  have hstart : Interpreter.start w
      { i.load w c with ctx.stdout := .pipe (i.load w c).index } =
      (Interpreter.dispatch w { i.load w c with ctx.stdout := .pipe (i.load w c).index }
        false).1 := if_pos hi
  simp only [Interpreter.pipe, Interpreter.next]
  rw [hstart]
  refine ⟨lastReturnValue_dispatch, ?_, dispatched_dispatch⟩
  exact closed_dispatch (i := { i.load w c with ctx.stdout := .pipe i.index }) argv_expand

lemma execute_runs (k : Command Word → Interpreter → Interpreter) (p : Pipeline)
    (hi : i.executes) : ∃ i', p.execute w k i = k p.final i' ∧ Piped w p i i' := by
  induction p generalizing i with
  | command c => exact ⟨i, rfl, hi, rfl, rfl, rfl, rfl, fun _ => rfl⟩
  | pipe c p ih =>
    obtain ⟨hvalue, hclosed, hdispatched⟩ := pipe_executes (w := w) hi c
    have hindex : ((i.load w c).pipe w).index = i.index + 1 := by
      simp only [Interpreter.pipe, Interpreter.next, index_start, Interpreter.load]
    obtain ⟨i', hexecute, h⟩ := ih (i := (i.load w c).pipe w) rfl
    refine ⟨i', hexecute, h.executes, ?_, h.value.trans hvalue, ?_, ?_, ?_⟩
    · have := h.index
      simp only [Pipeline.length]
      omega
    · rw [Pipeline.final, h.closed, hclosed, hindex, Pipeline.closes, Bool.or_assoc]
    · rw [Pipeline.final, h.returns, hindex, Pipeline.returnValue]
    · intro wait
      have hrest := h.dispatched wait
      rw [hvalue, hdispatched, hindex, List.append_assoc] at hrest
      exact hrest

/-- A pipeline has run between two states; its value is known if it was waited for. -/
structure Ran (w : World) (p : Pipeline) (wait : Bool) (i i' : Interpreter) : Prop where
  index : i'.index + 1 = i.index + p.length
  last : wait = true → i'.lastCommandReturnValue = p.returnValue w i.index
  value : i'.lastReturnValue = i.lastReturnValue
  closed : i'.closeCurrentSession = (i.closeCurrentSession || p.closes w i.index)
  dispatched : i'.dispatched =
    i.dispatched ++ p.dispatches w i.lastReturnValue wait i.index

lemma Piped.finish {p : Pipeline} {i' : Interpreter} (h : Piped w p i i') :
    Ran w p true i ((i'.load w p.final).finish w) := by
  have hfinish : (i'.load w p.final).finish w =
      { ((i'.load w p.final).dispatch w true).1 with
        lastCommandReturnValue := ((i'.load w p.final).dispatch w true).2 } := if_pos h.executes
  refine ⟨?_, fun _ => ?_, ?_, ?_, ?_⟩
  · rw [index_finish]
    exact h.index
  · rw [hfinish, ← h.returns]
    exact returnValue_dispatch
  · rw [hfinish, ← h.value]
    exact lastReturnValue_dispatch
  · rw [hfinish, ← h.closed]
    exact closed_dispatch (i := i'.load w p.final) argv_expand
  · rw [hfinish, ← h.dispatched true, ← h.value]
    exact dispatched_dispatch

lemma Piped.start {p : Pipeline} {i' : Interpreter} (h : Piped w p i i') :
    Ran w p false i ((i'.load w p.final).start w) := by
  have hstart : (i'.load w p.final).start w = ((i'.load w p.final).dispatch w false).1 :=
    if_pos h.executes
  refine ⟨?_, nofun, ?_, ?_, ?_⟩
  · rw [index_start]
    exact h.index
  · rw [hstart, ← h.value]
    exact lastReturnValue_dispatch
  · rw [hstart, ← h.closed]
    exact closed_dispatch (i := i'.load w p.final) argv_expand
  · rw [hstart, ← h.dispatched false, ← h.value]
    exact dispatched_dispatch

/-! ### The interpreter and the grammar -/

/-- The interpreter stands where the grammar does. The value of the last pipeline is not the same
where the next one runs in any case. -/
structure Agrees (i : Interpreter) (s : Status) : Prop where
  index : i.index = s.index
  executes : i.executes = s.runs
  last : s.runs = false → i.lastCommandReturnValue = s.last
  value : i.lastReturnValue = s.value
  closed : i.closeCurrentSession = s.closed

/-- A connector behind a pipeline that has been waited for, or that is skipped. -/
def Interpreter.connect (connector : Connector) (i : Interpreter) : Interpreter :=
  match connector with
  | .or => i.next .or
  | .and => i.next .and
  | .background => { i.next .always with lastCommandReturnValue := 0 }
  | .sequence => i.sequence

lemma token_connector (connector : Connector) :
    i.token w connector.token =
      if connector = .background then .ok ((i.start w).connect connector)
      else (i.await w).map (·.connect connector) := by
  cases connector <;> rfl

@[simp] lemma dispatched_connect {connector : Connector} :
    (i.connect connector).dispatched = i.dispatched := by
  cases connector <;> rfl

lemma Agrees.connect {p : Pipeline} {connector : Connector} {i' : Interpreter} {last : Int64}
    {closed : Bool} (hindex : i'.index + 1 = s.index + p.length)
    (hlast : connector ≠ .background → i'.lastCommandReturnValue = last)
    (hvalue : i'.lastReturnValue = s.value) (hclosed : i'.closeCurrentSession = closed) :
    Agrees (i'.connect connector) (s.after p connector last closed) := by
  cases connector with
  | or =>
    have hlast' := hlast (by decide)
    refine ⟨hindex, ?_, fun _ => hlast', hvalue, hclosed⟩
    exact congrArg (fun value : Int64 => decide (value ≠ 0)) hlast'
  | and =>
    have hlast' := hlast (by decide)
    refine ⟨hindex, ?_, fun _ => hlast', hvalue, hclosed⟩
    exact congrArg (fun value : Int64 => decide (value = 0)) hlast'
  | background => exact ⟨hindex, rfl, nofun, hvalue, hclosed⟩
  | sequence => exact ⟨hindex, rfl, nofun, hlast (by decide), hclosed⟩

lemma connect_ran {p : Pipeline} {connector : Connector} {i' : Interpreter} (h : Agrees i s)
    (hp : Piped w p i i')
    (hresult : connector ≠ .background → p.returnValue w s.index = s.result w p) :
    match (i'.load w p.final).token w connector.token with
    | .error i'' => (connector ≠ .background ∧ (s.ran w p connector).closed) ∧
        Ran w p true i i''
    | .ok i'' => ¬(connector ≠ .background ∧ (s.ran w p connector).closed) ∧
        Agrees i'' (s.ran w p connector) ∧
        i''.dispatched =
          i.dispatched ++ p.dispatches w s.value (connector ≠ .background) s.index := by
  rw [token_connector]
  by_cases hconnector : connector = .background
  · have hran := hp.start
    rw [if_pos hconnector]
    refine ⟨fun h => h.1 hconnector, ?_, ?_⟩
    · refine .connect ?_ (fun hne => absurd hconnector hne) ?_ ?_
      · rw [hran.index, h.index]
      · rw [hran.value, h.value]
      · rw [hran.closed, h.closed, h.index]
    · rw [dispatched_connect, hran.dispatched, h.value, h.index]
      simp [hconnector]
  · have hran := hp.finish
    have hclosed : ((i'.load w p.final).finish w).closeCurrentSession =
        (s.ran w p connector).closed := by
      rw [hran.closed, h.closed, h.index]
      rfl
    rw [if_neg hconnector, Interpreter.await]
    split_ifs with hawait
    · exact ⟨⟨hconnector, hclosed ▸ hawait.2⟩, hran⟩
    · refine ⟨fun h => hawait ⟨hp.executes, hclosed ▸ h.2⟩, ?_, ?_⟩
      · refine .connect ?_ (fun _ => ?_) ?_ ?_
        · rw [hran.index, h.index]
        · rw [hran.last rfl, h.index, if_neg fun h => hconnector h.1, hresult hconnector]
        · rw [hran.value, h.value]
        · exact hclosed
      · rw [dispatched_connect, hran.dispatched, h.value, h.index]
        simp [hconnector]

lemma connect_skipped (h : Agrees i s) (hskip : s.runs = false) (c : Command Word)
    (connector : Connector) :
    ∃ i', (i.load w c).token w connector.token = .ok i' ∧
      Agrees i' (s.skipped (.command c) connector) ∧ i'.dispatched = i.dispatched := by
  have hexecutes : ¬(i.load w c).executes = true :=
    Bool.not_eq_true _ ▸ h.executes.trans hskip
  refine ⟨(i.load w c).connect connector, ?_, ?_, dispatched_connect⟩
  · have hawait : ¬((i.load w c).executes = true ∧
        ((i.load w c).finish w).closeCurrentSession = true) := fun hawait => hexecutes hawait.1
    have hfinish : (i.load w c).finish w = i.load w c := if_neg hexecutes
    have hstart : (i.load w c).start w = i.load w c := if_neg hexecutes
    rw [token_connector, Interpreter.await, if_neg hawait, hfinish, hstart]
    split_ifs <;> rfl
  · exact .connect (congrArg (· + 1) h.index) (fun _ => h.last hskip) h.value h.closed

/-! ### Calls are never taken back -/

lemma prefix_finish : i.dispatched <+: (i.finish w).dispatched := by
  rw [Interpreter.finish]
  split_ifs
  · exact ⟨_, dispatched_dispatch.symm⟩
  · exact List.prefix_rfl

lemma prefix_start : i.dispatched <+: (i.start w).dispatched := by
  rw [Interpreter.start]
  split_ifs
  · exact ⟨_, dispatched_dispatch.symm⟩
  · exact List.prefix_rfl

lemma prefix_pipeline {k : Command Word → Interpreter → Interpreter}
    (hk : ∀ c i, i.dispatched <+: (k c i).dispatched) (p : Pipeline) :
    i.dispatched <+: (p.execute w k i).dispatched := by
  induction p generalizing i with
  | command c => exact hk c i
  | pipe c p ih =>
    have hpipe : i.dispatched <+: ((i.load w c).pipe w).dispatched :=
      prefix_start (i := { i.load w c with ctx.stdout := .pipe i.index })
    exact hpipe.trans ih

lemma prefix_execute (line : Line) : i.dispatched <+: (line.execute w i).dispatched := by
  induction line generalizing i with
  | pipeline p => exact prefix_pipeline (fun c i => prefix_finish (i := i.load w c)) p
  | join p connector rest ih =>
    refine prefix_pipeline (fun c i => ?_) p
    rw [token_connector, Interpreter.await]
    have hconnect {i' : Interpreter} (hi : i.dispatched <+: i'.dispatched) :
        i.dispatched <+: (rest.execute w (i'.connect connector)).dispatched :=
      hi.trans (dispatched_connect (i := i') ▸ ih)
    split_ifs
    · exact hconnect (prefix_start (i := i.load w c))
    · exact prefix_finish (i := i.load w c)
    · exact hconnect (prefix_finish (i := i.load w c))

lemma dispatches_eq_cons {p : Pipeline} (hp : p.Named) (value : Int64) (wait : Bool) (index : ℕ) :
    ∃ call more, p.dispatches w value wait index = call :: more ∧ call.index = index := by
  cases p with
  | command c => exact ⟨⟨index, c.expand w value, wait⟩, [], if_neg (argv_expand.not.mpr hp), rfl⟩
  | pipe c p =>
    refine ⟨⟨index, { c.expand w value with stdout := .pipe index }, false⟩,
      p.dispatches w value wait (index + 1), ?_, rfl⟩
    rw [Pipeline.dispatches, Command.dispatches, if_neg (argv_expand.not.mpr hp.1)]
    rfl

def Line.head : Line → Pipeline
  | .pipeline p => p
  | .join p _ _ => p

lemma execute_first {line : Line} (hline : line.head.Named) (hi : i.executes) :
    ∃ call more, (line.execute w i).dispatched = i.dispatched ++ call :: more ∧
      call.index = i.index := by
  have hprefix : ∃ wait, i.dispatched ++
      line.head.dispatches w i.lastReturnValue wait i.index <+:
        (line.execute w i).dispatched := by
    rcases line with p | ⟨p, connector, rest⟩
    · obtain ⟨i', hexecute, hp⟩ := execute_runs _ p hi
      refine ⟨true, ?_⟩
      rw [Line.execute, hexecute, Line.head, ← hp.finish.dispatched]
    · obtain ⟨i', hexecute, hp⟩ := execute_runs _ p hi
      rw [Line.execute, hexecute, Line.head, token_connector, Interpreter.await]
      have hrest {i'' : Interpreter} :
          i''.dispatched <+: (rest.execute w (i''.connect connector)).dispatched :=
        dispatched_connect (i := i'') ▸ prefix_execute rest
      split_ifs
      · exact ⟨false, hp.start.dispatched ▸ hrest⟩
      · exact ⟨true, hp.finish.dispatched ▸ List.prefix_rfl⟩
      · exact ⟨true, hp.finish.dispatched ▸ hrest⟩
  obtain ⟨wait, more', hmore'⟩ := hprefix
  obtain ⟨call, more, hcall, hindex⟩ :=
    dispatches_eq_cons (w := w) hline i.lastReturnValue wait i.index
  refine ⟨call, more ++ more', ?_, hindex⟩
  rw [← hmore', hcall, List.append_assoc, List.cons_append]

lemma index_le_dispatches {value : Int64} {wait : Bool} {index : ℕ} {call : Dispatch}
    {p : Pipeline} (h : call ∈ p.dispatches w value wait index) : index ≤ call.index := by
  have hcommand {index} {c : Command (List UInt8)} {wait : Bool}
      (h : call ∈ c.dispatches index wait) : index ≤ call.index := by
    rw [Command.dispatches] at h
    split_ifs at h
    · cases h
    · rw [List.mem_singleton.mp h]
  induction p generalizing index with
  | command c => exact hcommand h
  | pipe c p ih =>
    rcases List.mem_append.mp h with h | h
    · exact hcommand h
    · exact (Nat.le_succ index).trans (ih h)

lemma index_le_reference {line : Line} {call : Dispatch}
    (h : call ∈ (line.reference w s).1) : s.index ≤ call.index := by
  induction line generalizing s with
  | pipeline p =>
    rw [Line.reference] at h
    split_ifs at h
    · exact index_le_dispatches h
    · cases h
  | join p connector rest ih =>
    rw [Line.reference] at h
    split_ifs at h
    · exact index_le_dispatches h
    · rcases List.mem_append.mp h with h | h
      · exact index_le_dispatches h
      · exact (Nat.le_add_right s.index p.length).trans (ih h)
    · exact (Nat.le_add_right s.index p.length).trans (ih h)

/-- The interpreter calls the commands that the grammar runs, and has its value. -/
def RunsAs (w : World) (line : Line) (i : Interpreter) (s : Status) : Prop :=
  (line.execute w i).dispatched = i.dispatched ++ (line.reference w s).1 ∧
    (line.execute w i).lastCommandReturnValue = (line.reference w s).2

lemma not_runsAs_push (h : Agrees i s) (hskip : s.runs = false) (c : Command Word) (line : Line)
    (hline : line.head.Named) : ¬RunsAs w (line.push c) i s := by
  intro hruns
  have hexecutes : ¬i.executes = true := Bool.not_eq_true _ ▸ h.executes.trans hskip
  have hstart : Interpreter.start w { i.load w c with ctx.stdout := .pipe i.index } =
      { i.load w c with ctx.stdout := .pipe i.index } := if_neg hexecutes
  have hpipe : ((i.load w c).pipe w).dispatched = i.dispatched ∧
      ((i.load w c).pipe w).index = i.index + 1 := by
    simp only [Interpreter.pipe, Interpreter.next, Interpreter.load] at hstart ⊢
    rw [hstart]
    exact ⟨rfl, rfl⟩
  obtain ⟨call, more, hcall, hindex⟩ :=
    execute_first (w := w) (i := (i.load w c).pipe w) hline rfl
  have hdispatched := hruns.1
  rw [execute_push, hcall, hpipe.1] at hdispatched
  have hmem : call ∈ ((line.push c).reference w s).1 := by
    rw [← List.append_cancel_left hdispatched]
    exact List.mem_cons_self
  -- the grammar goes on behind the pipeline, which has two commands at least
  have hlt : s.index + 2 ≤ call.index := by
    rcases line with p | ⟨p, connector, rest⟩
    · rw [Line.push, Line.reference, if_neg (Bool.eq_false_iff.mp hskip)] at hmem
      cases hmem
    · rw [Line.push, Line.reference, if_neg (Bool.eq_false_iff.mp hskip)] at hmem
      have hle : s.index + (p.length + 1) ≤ call.index := index_le_reference hmem
      have hpos : 0 < p.length := by cases p <;> exact Nat.succ_pos _
      omega
  rw [hindex, hpipe.2, h.index] at hlt
  omega

lemma length_push_ne (c : Command Word) (p : Pipeline) : (Pipeline.pipe c p).length ≠ 1 := by
  cases p <;> simp [Pipeline.length]

lemma returnValue_of_isEmpty {p : Pipeline} (hp : p.isEmpty) (index : ℕ) :
    p.returnValue w index = 0 := by
  induction p generalizing index with
  | command c =>
    rw [Pipeline.returnValue, Command.returnValue]
    exact if_pos (of_decide_eq_true hp)
  | pipe c p ih =>
    rw [Pipeline.isEmpty, Bool.and_eq_true] at hp
    exact ih hp.2 (index + 1)

lemma returnValue_eq_result_iff {p : Pipeline} :
    p.returnValue w s.index = s.result w p ↔ (p.isEmpty → s.last = 0) := by
  rw [Status.result]
  split_ifs with hp
  · rw [returnValue_of_isEmpty hp, eq_comm]
    exact (forall_prop_of_true (p := p.isEmpty = true) (q := fun _ => s.last = 0) hp).symm
  · exact iff_of_true rfl fun h => absurd h hp

lemma isEmpty_of_named {p : Pipeline} (hp : p.Named) : ¬p.isEmpty := by
  cases p with
  | command c => exact fun h => hp (of_decide_eq_true h)
  | pipe c p =>
    rw [Pipeline.isEmpty, Bool.and_eq_true]
    exact fun h => hp.1 (of_decide_eq_true h.1)

/-- From states that agree, the interpreter follows the grammar on a clean line, and of the lines
that are complete only on these. -/
lemma runsAs_iff (line : Line) (h : Agrees i s) (hline : line.Clean w s ∨ line.Complete) :
    RunsAs w line i s ↔ line.Clean w s := by
  induction line generalizing i s with
  | pipeline p =>
    rw [Line.Clean] at hline ⊢
    by_cases hruns : s.runs = true
    · have hexecutes : i.executes = true := h.executes.trans hruns
      obtain ⟨i', hexecute, hp⟩ := execute_runs (w := w) (fun c i => (i.load w c).finish w) p
        hexecutes
      have hran := hp.finish
      rw [RunsAs, Line.execute, Line.reference, if_pos hruns, if_pos hruns, hexecute,
        hran.dispatched, h.value, h.index, and_iff_right rfl, hran.last rfl, h.index]
      exact returnValue_eq_result_iff
    · have hskip := Bool.not_eq_true _ ▸ hruns
      rw [if_neg hruns] at hline ⊢
      rcases p with c | ⟨c, p⟩
      · refine iff_of_true ?_ rfl
        have hexecutes : ¬(i.load w c).executes = true := fun hi => hruns (h.executes.symm.trans hi)
        have hfinish : (i.load w c).finish w = i.load w c := if_neg hexecutes
        rw [RunsAs, Line.execute, Line.reference, if_neg hruns, Pipeline.execute, hfinish]
        exact ⟨(List.append_nil _).symm, h.last hskip⟩
      · have hnamed : p.Named := by
          rcases hline with hlength | hlength | hnamed
          · exact absurd hlength (length_push_ne c p)
          · exact absurd hlength (length_push_ne c p)
          · exact hnamed.2
        exact iff_of_false (not_runsAs_push h hskip c (.pipeline p) hnamed)
          (length_push_ne c p)
  | join p connector rest ih =>
    rw [Line.Clean] at hline ⊢
    by_cases hruns : s.runs = true
    · have hexecutes : i.executes = true := h.executes.trans hruns
      obtain ⟨i', hexecute, hp⟩ := execute_runs (w := w) (fun c i =>
        match (i.load w c).token w connector.token with
        | .error i => i
        | .ok i => rest.execute w i) p hexecutes
      rw [if_pos hruns] at hline ⊢
      have hlast : connector ≠ .background → p.isEmpty → s.last = 0 := by
        rcases hline with hclean | hcomplete
        · exact hclean.1
        · exact fun _ hempty => absurd hempty (isEmpty_of_named hcomplete.1)
      have hresult := fun hconnector => returnValue_eq_result_iff (w := w).mpr (hlast hconnector)
      have hran := @connect_ran w i s p connector i' h hp hresult
      rw [and_iff_right hlast, RunsAs, Line.execute, Line.reference, if_pos hruns, hexecute]
      generalize (i'.load w p.final).token w connector.token = out at hran
      rcases out with i'' | i''
      · obtain ⟨hends, hran⟩ := hran
        rw [if_pos hends]
        refine iff_of_true ⟨?_, ?_⟩ (.inl hends)
        · rw [hran.dispatched, h.value, h.index]
        · rw [hran.last rfl, h.index, hresult hends.1]
      · obtain ⟨hends, hagrees, hdispatched⟩ := hran
        have hrest : rest.Clean w (s.ran w p connector) ∨ rest.Complete :=
          hline.imp (fun hclean => hclean.2.resolve_left hends) And.right
        rw [if_neg hends, or_iff_right hends, ← ih hagrees hrest, RunsAs, hdispatched,
          List.append_assoc]
    · have hskip := Bool.not_eq_true _ ▸ hruns
      rw [if_neg hruns] at hline ⊢
      rcases p with c | ⟨c, p⟩
      · obtain ⟨i', htoken, hagrees, hdispatched⟩ :=
          connect_skipped (w := w) h hskip c connector
        have hrest : rest.Clean w (s.skipped (.command c) connector) ∨ rest.Complete :=
          hline.imp And.right And.right
        rw [and_iff_right (show (Pipeline.command c).length = 1 from rfl), ← ih hagrees hrest,
          RunsAs, RunsAs, Line.execute, Line.reference, if_neg hruns, Pipeline.execute, htoken,
          hdispatched]
      · have hnamed : p.Named := by
          rcases hline with hclean | hcomplete
          · exact absurd hclean.1 (length_push_ne c p)
          · exact hcomplete.1.2
        exact iff_of_false (not_runsAs_push h hskip c (.join p connector rest) hnamed)
          fun hclean => length_push_ne c p hclean.1

/-! ### A whole line -/

/-- The status at the start of a line. -/
def Status.init (lastReturnValue : Int64) (closeCurrentSession : Bool) : Status :=
  ⟨0, .sequence, 0, lastReturnValue, closeCurrentSession⟩

/-- `shell_interpreter_execute` ends on a command with the calls and the last value of its line. -/
def ExecutesAs (w : World) (lastReturnValue : Int64) (closeCurrentSession : Bool)
    (command : List UInt8) (line : Line) : Prop :=
  ∃ i, execute w lastReturnValue closeCurrentSession command = some i ∧
    i.dispatched = (line.reference w (.init lastReturnValue closeCurrentSession)).1 ∧
    i.lastReturnValue = (line.reference w (.init lastReturnValue closeCurrentSession)).2

/-- A command without syntax errors is executed as the grammar says if its line is clean; and of
the lines that are complete only those are. -/
theorem executesAs_iff (w : World) (hopens : ∀ stream, w.opens stream = true)
    (lastReturnValue : Int64) (closeCurrentSession : Bool) {command : List UInt8} {line : Line}
    (hline : parse command = some line) :
    (line.Clean w (.init lastReturnValue closeCurrentSession) →
      ExecutesAs w lastReturnValue closeCurrentSession command line) ∧
    (line.Complete → (ExecutesAs w lastReturnValue closeCurrentSession command line ↔
      line.Clean w (.init lastReturnValue closeCurrentSession))) := by
  obtain ⟨lexemes, hlex, rfl⟩ := Option.map_eq_some_iff.mp hline
  have hexecute := executeFrom_eq (i := .init lastReturnValue closeCurrentSession) (c := .create)
    hopens rfl hlex
  have hagrees : Agrees (.init lastReturnValue closeCurrentSession)
      (.init lastReturnValue closeCurrentSession) := ⟨rfl, rfl, nofun, rfl, rfl⟩
  have hruns : ExecutesAs w lastReturnValue closeCurrentSession command
      (parseFrom 0 .create lexemes) ↔ RunsAs w (parseFrom 0 .create lexemes)
        (.init lastReturnValue closeCurrentSession)
        (.init lastReturnValue closeCurrentSession) := by
    rw [ExecutesAs, execute, hexecute]
    constructor
    · rintro ⟨i, hi, hdispatched, hlast⟩
      cases hi
      exact ⟨hdispatched, hlast⟩
    · rintro ⟨hdispatched, hlast⟩
      exact ⟨_, rfl, hdispatched, hlast⟩
  rw [hruns]
  exact ⟨fun hclean => (runsAs_iff _ hagrees (.inl hclean)).mpr hclean,
    fun hcomplete => runsAs_iff _ hagrees (.inr hcomplete)⟩

/-- The first command of a line returns one, the others zero. -/
def firstFails : World where
  getVariable _ _ := none
  opens _ := true
  target index := .builtin (if index = 0 then 1 else 0) false

/-- The line `f||a|b;`. -/
theorem executesAs_or_pipe : ExecutesAs firstFails 0 false [102, 124, 124, 97, 124, 98, 59]
    (.join (.command ⟨[.text [102]], .standard, .standard⟩) .or
      (.join (.pipe ⟨[.text [97]], .standard, .standard⟩
        (.command ⟨[.text [98]], .pipe 1, .standard⟩)) .sequence
        (.pipeline (.command ⟨[], .standard, .standard⟩)))) :=
  (executesAs_iff firstFails (fun _ => rfl) 0 false (by decide +kernel)).1
    ⟨by decide +kernel, .inr ⟨by decide +kernel, .inr fun _ => by decide +kernel⟩⟩

/-- Behind `f;` the value of `f` is lost. -/
example : (execute firstFails 0 false [102, 59]).map Interpreter.lastReturnValue = some 0 := by
  decide +kernel

/-- In `f&&a|b` the pipeline is skipped, but `b` is run. -/
theorem not_executesAs : ¬∀ (w : World) (lastReturnValue : Int64) (closeCurrentSession : Bool)
    (command : List UInt8) (line : Line), (∀ stream, w.opens stream = true) →
    parse command = some line →
    ExecutesAs w lastReturnValue closeCurrentSession command line := by
  intro h
  have hparse : parse [102, 38, 38, 97, 124, 98] = some
      (.join (.command ⟨[.text [102]], .standard, .standard⟩) .and
        (.pipeline (.pipe ⟨[.text [97]], .standard, .standard⟩
          (.command ⟨[.text [98]], .pipe 1, .standard⟩)))) := by
    decide +kernel
  obtain ⟨i, hi, hdispatched, -⟩ := h firstFails 0 false _ _ (fun _ => rfl) hparse
  have hcalls : (execute firstFails 0 false [102, 38, 38, 97, 124, 98]).map
      (fun i => i.dispatched.map Dispatch.index) = some [0, 2] := by
    decide +kernel
  rw [hi, Option.map_some, hdispatched] at hcalls
  revert hcalls
  decide +kernel

end KernelModel.Shell
