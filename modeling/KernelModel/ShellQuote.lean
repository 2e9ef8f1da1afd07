import KernelModel.ShellTokens

/-!
The text that the line editor inserts for a completed name, and how the shell reads it.

A character is a signed byte, so the ones above `127` are less than all others.
-/

namespace KernelModel.Shell

/-- A character as a number. -/
def signed (c : UInt8) : ℤ := c.toInt8.toInt

/-- `_is_escaped_character` -/
def isEscapedCharacter (c : UInt8) : Bool :=
  signed c ≤ 31 ∨ c = Ascii.backslash ∨ c = Ascii.quote ∨ c = Ascii.dollar ∨ signed c > 126

/-- `_is_quoted_character` -/
def isQuotedCharacter (c : UInt8) : Bool :=
  signed c ≤ 32 ∨ c = Ascii.less ∨ c = Ascii.greater ∨ c = Ascii.ampersand ∨ c = Ascii.pipe ∨
    c = Ascii.semicolon ∨ c = Ascii.backslash ∨ c = Ascii.quote ∨ c = Ascii.dollar ∨
    signed c > 126

/-- `_format_base16_char` -/
def formatBase16Char (value : UInt8) : UInt8 :=
  let value := value &&& 15
  value + if value > 9 then 87 else 48

/-- What `_quote_string` writes for one character. -/
def quoteCharacter (c : UInt8) : List UInt8 :=
  if !isEscapedCharacter c then [c]
  else if c = Ascii.backslash ∨ c = Ascii.quote ∨ c = Ascii.dollar then [Ascii.backslash, c]
  else if c = Ascii.escape then [Ascii.backslash, Ascii.e]
  else if c = Ascii.newline then [Ascii.backslash, Ascii.n]
  else if c = Ascii.carriageReturn then [Ascii.backslash, Ascii.r]
  else if c = Ascii.tab then [Ascii.backslash, Ascii.t]
  else [Ascii.backslash, Ascii.x, formatBase16Char (c >>> 4), formatBase16Char c]

/-- `_quote_string` -/
def quoteString (str : List UInt8) : List UInt8 :=
  Ascii.quote :: str.flatMap quoteCharacter ++ [Ascii.quote]

/-- The text for a name in `_redraw_autocomplete`, where it fits in the line. -/
def completed (str : List UInt8) : List UInt8 :=
  if str.any isQuotedCharacter then quoteString str else str

/-- The characters that both sides know. -/
def IsPlain (c : UInt8) : Prop :=
  c = Ascii.tab ∨ c = Ascii.newline ∨ c = Ascii.carriageReturn ∨ c = Ascii.escape ∨
    (32 ≤ c ∧ c ≤ 126)

instance (c : UInt8) : Decidable (IsPlain c) := inferInstanceAs (Decidable (_ ∨ _))

section

variable {c : UInt8} {str rest : List UInt8}

/-! ### Single characters -/

lemma forall_character {p : UInt8 → Prop} [DecidablePred p]
    (h : ∀ i : Fin 256, p (UInt8.ofNat i)) (c : UInt8) : p c := by
  have hc := h ⟨c.toNat, c.toNat_lt⟩
  rwa [UInt8.ofNat_toNat] at hc

/-- A character that both sides know is written as it is, or as a sequence for it. -/
lemma quoteCharacter_of_plain : ∀ c, IsPlain c →
    (quoteCharacter c = [c] ∧ c ≠ Ascii.quote ∧ c ≠ Ascii.dollar ∧ c ≠ Ascii.backslash) ∨
      ∃ d, quoteCharacter c = [Ascii.backslash, d] ∧ controlSequence d = some c := by
  have hsequence : ∀ c, IsPlain c →
      (quoteCharacter c = [c] ∧ c ≠ Ascii.quote ∧ c ≠ Ascii.dollar ∧ c ≠ Ascii.backslash) ∨
        quoteCharacter c = [Ascii.backslash, (quoteCharacter c).getD 1 0] ∧
          controlSequence ((quoteCharacter c).getD 1 0) = some c :=
    forall_character (by decide +kernel)
  intro c hc
  exact (hsequence c hc).imp_right fun h => ⟨_, h⟩

lemma quoteCharacter_of_not_plain : ∀ c, ¬IsPlain c → isQuotedCharacter c ∧
    quoteCharacter c =
      [Ascii.backslash, Ascii.x, formatBase16Char (c >>> 4), formatBase16Char c] :=
  forall_character (by decide +kernel)

lemma of_not_isQuotedCharacter : ∀ c, c ≠ 0 → ¬isQuotedCharacter c → IsPlain c ∧
    isValidCharacter c ∧ ¬isWhitespace c ∧ c ≠ Ascii.newline ∧ c ≠ Ascii.greater ∧
      c ≠ Ascii.less ∧ c ≠ Ascii.pipe ∧ c ≠ Ascii.ampersand ∧ c ≠ Ascii.semicolon ∧
      c ≠ Ascii.quote ∧ c ≠ Ascii.dollar ∧ c ≠ Ascii.backslash :=
  forall_character (by decide +kernel)

/-! ### Words -/

lemma readQuoted_end (command : List UInt8) :
    readQuoted (Ascii.quote :: command) = some ([], command) := by
  rw [readQuoted.eq_def]
  rfl

lemma readQuoted_character (hq : c ≠ Ascii.quote) (hd : c ≠ Ascii.dollar)
    (hb : c ≠ Ascii.backslash) (command : List UInt8) :
    readQuoted (c :: command) = (readQuoted command).map fun out => (c :: out.1, out.2) := by
  rw [readQuoted.eq_def]
  simp only [if_neg hq, if_neg hd, if_neg hb]
  cases readQuoted command <;> rfl

lemma readQuoted_sequence (d : UInt8) (command : List UInt8) :
    readQuoted (Ascii.backslash :: d :: command) =
      (controlSequence d).bind fun c =>
        (readQuoted command).map fun out => (c :: out.1, out.2) := by
  rw [readQuoted.eq_def]
  simp only [if_neg (show Ascii.backslash ≠ Ascii.quote by decide),
    if_neg (show Ascii.backslash ≠ Ascii.dollar by decide), ↓reduceIte]
  cases controlSequence d <;> cases readQuoted command <;> rfl

lemma readQuoted_plain (hc : IsPlain c) (text : List UInt8) :
    readQuoted (quoteCharacter c ++ text) =
      (readQuoted text).map fun out => (c :: out.1, out.2) := by
  rcases quoteCharacter_of_plain c hc with ⟨heq, hq, hd, hb⟩ | ⟨d, heq, hd⟩
  · rw [heq, List.singleton_append, readQuoted_character hq hd hb]
  · rw [heq, List.cons_append, List.singleton_append, readQuoted_sequence, hd, Option.bind_some]

lemma readQuoted_not_plain (hc : ¬IsPlain c) (text : List UInt8) :
    readQuoted (quoteCharacter c ++ text) = none := by
  have hx : controlSequence Ascii.x = none := by decide
  rw [(quoteCharacter_of_not_plain c hc).2, List.cons_append, List.cons_append,
    readQuoted_sequence, hx, Option.bind_none]

/-- **In quotes**, a string comes back if and only if all its characters are known. -/
lemma readQuoted_quoted (str rest : List UInt8) :
    readQuoted (str.flatMap quoteCharacter ++ Ascii.quote :: rest) =
      if ∀ c ∈ str, IsPlain c then some (str, rest) else none := by
  induction str with
  | nil =>
    rw [if_pos (by simp), List.flatMap_nil, List.nil_append, readQuoted_end]
  | cons c str ih =>
    rw [List.flatMap_cons, List.append_assoc]
    by_cases hc : IsPlain c
    · rw [readQuoted_plain hc, ih]
      by_cases hstr : ∀ d ∈ str, IsPlain d
      · rw [if_pos hstr, if_pos (List.forall_mem_cons.mpr ⟨hc, hstr⟩)]
        rfl
      · rw [if_neg hstr, if_neg fun h => hstr (List.forall_mem_cons.mp h).2]
        rfl
    · rw [readQuoted_not_plain hc, if_neg fun h => hc (List.forall_mem_cons.mp h).1]

lemma readPlain_character (hc : isValidCharacter c) (hb : c ≠ Ascii.backslash)
    (command : List UInt8) :
    readPlain (c :: command) = (readPlain command).map fun out => (c :: out.1, out.2) := by
  rw [readPlain.eq_def]
  simp only [hc, not_true_eq_false, if_neg hb, ↓reduceIte]
  cases readPlain command <;> rfl

/-- **Without quotes**, a string that needs none is one word. -/
lemma readPlain_unquoted (hstr : ∀ c ∈ str, c ≠ 0 ∧ ¬isQuotedCharacter c) :
    readPlain str = some (str, []) := by
  induction str with
  | nil => rfl
  | cons c str ih =>
    obtain ⟨⟨h0, hc⟩, htail⟩ := List.forall_mem_cons.mp hstr
    obtain ⟨-, hvalid, -, -, -, -, -, -, -, -, -, hb⟩ := of_not_isQuotedCharacter c h0 hc
    rw [readPlain_character hvalid hb, ih htail]
    rfl

end

section

variable (getVariable : List UInt8 → Option (List UInt8)) {str : List UInt8} {c : UInt8}

lemma tokenize_word (hspace : ¬isWhitespace c) (hoperator : takeOperator (c :: str) = none)
    (hword : ∀ out, readWord getVariable (c :: str) = some out → out.2 = []) :
    tokenize getVariable (c :: str) =
      (readWord getVariable (c :: str)).map fun out => [.argument out.1] := by
  rw [tokenize, tokenizeFrom, if_neg hspace, hoperator]
  simp only
  rcases hread : readWord getVariable (c :: str) with _ | ⟨word, rest⟩
  · rfl
  · obtain rfl : rest = [] := hword _ hread
    rfl

lemma tokenize_quoted (str : List UInt8) :
    tokenize getVariable (quoteString str) =
      if ∀ c ∈ str, IsPlain c then some [.argument str] else none := by
  have hword : readWord getVariable (quoteString str) =
      if ∀ c ∈ str, IsPlain c then some (str, []) else none := readQuoted_quoted str []
  rw [quoteString, List.cons_append] at hword ⊢
  rw [tokenize_word getVariable (by decide) (by rfl), hword]
  · split_ifs <;> rfl
  · intro out hout
    rw [hword] at hout
    split_ifs at hout
    · cases hout
      rfl

lemma tokenize_unquoted (hne : str ≠ []) (hstr : ∀ c ∈ str, c ≠ 0 ∧ ¬isQuotedCharacter c) :
    tokenize getVariable str = some [.argument str] := by
  obtain ⟨c, str, rfl⟩ := List.exists_cons_of_ne_nil hne
  obtain ⟨h0, hc⟩ := hstr c List.mem_cons_self
  obtain ⟨-, hvalid, hspace, hnewline, hgreater, hless, hpipe, hand, hsemicolon, hquote, hdollar,
    -⟩ := of_not_isQuotedCharacter c h0 hc
  have hword : readWord getVariable (c :: str) = some (c :: str, []) := by
    rw [readWord, if_neg hquote, if_pos hvalid, readPlain_unquoted hstr]
    exact if_neg fun h => hdollar (Option.some.inj h)
  have hoperator : takeOperator (c :: str) = none := by
    rw [takeOperator]
    simp only [if_neg hgreater, if_neg hless, if_neg hpipe, if_neg hand,
      if_neg (not_or_intro hsemicolon hnewline)]
  rw [tokenize_word getVariable hspace hoperator, hword]
  · rfl
  · intro out hout
    rw [hword] at hout
    obtain rfl := Option.some.inj hout
    rfl

/-- **Completed names** mean themselves to the shell if and only if they have no control
characters other than tab, line feed, carriage return and escape, and no byte above `126`. -/
theorem tokenize_completed_iff (hne : str ≠ []) (hzero : 0 ∉ str) :
    tokenize getVariable (completed str) = some [.argument str] ↔ ∀ c ∈ str, IsPlain c := by
  rw [completed]
  by_cases hquoted : str.any isQuotedCharacter = true
  · rw [if_pos hquoted, tokenize_quoted]
    by_cases hplain : ∀ c ∈ str, IsPlain c
    · exact iff_of_true (if_pos hplain) hplain
    · refine iff_of_false ?_ hplain
      rw [if_neg hplain]
      exact Option.some_ne_none _ ∘ Eq.symm
  · have hstr : ∀ c ∈ str, c ≠ 0 ∧ ¬isQuotedCharacter c := by
      intro c hc
      refine ⟨fun h => hzero (h ▸ hc), fun h => hquoted ?_⟩
      exact List.any_eq_true.mpr ⟨c, hc, h⟩
    rw [if_neg hquoted, tokenize_unquoted getVariable hne hstr]
    refine iff_of_true rfl fun c hc => ?_
    exact (of_not_isQuotedCharacter c (hstr c hc).1 (hstr c hc).2).1

end

/-- A name with a blank and a quote. -/
theorem tokenize_completed_blank : tokenize (fun _ => none) (completed [97, 32, 34, 98]) =
    some [.argument [97, 32, 34, 98]] :=
  (tokenize_completed_iff _ (by decide) (by decide)).mpr (by decide +kernel)

/-- Delete is written as a number, which the shell does not know. -/
theorem tokenize_completed_delete :
    tokenize (fun _ => none) (completed [127]) ≠ some [.argument [127]] := by
  decide +kernel

end KernelModel.Shell
