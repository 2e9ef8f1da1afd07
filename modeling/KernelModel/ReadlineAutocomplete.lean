import Mathlib.Data.FinEnum
import Mathlib.Data.List.DropRight
import KernelModel.Readline

/-!
The prefix of the line that is completed.

A pointer into the line is the rest of the line from there on, with its terminating zero; behind the
zero nothing can be read. What the callback does with the prefix is left out.
-/

namespace KernelModel.Readline

open Format (code)

abbrev quote : UInt8 := code '"'
abbrev backslash : UInt8 := code '\\'

/-- The characters that a word ends at. -/
def isSeparator (c : UInt8) : Bool :=
  c = code ' ' ∨ c = code '\t' ∨ c = code ';' ∨ c = code '&' ∨ c = code '|' ∨ c = code '<' ∨
    c = code '>'

mutual

/-- The outer loop of `_get_autocomplete_prefix`. -/
def findPrefix (out : List UInt8) : List UInt8 → Option (List UInt8)
  | [] => none
  | c :: ptr =>
    if c = 0 then some out
    else
      let out := if isSeparator c then ptr else out
      if c = quote then skipQuoted out ptr else findPrefix out ptr

/-- The inner loop, and the step of the outer one over the character that it stops at. -/
def skipQuoted (out : List UInt8) : List UInt8 → Option (List UInt8)
  | [] => none
  | c :: ptr =>
    if c = 0 ∨ c = quote then findPrefix out ptr
    else if c = backslash then
      match ptr with
      | [] => none
      | next :: rest => if next = quote then skipQuoted out rest else skipQuoted out (next :: rest)
    else skipQuoted out ptr

end

/-- The line with its zero. -/
def State.terminated (s : State) : List UInt8 := s.line.text (s.lineLength + 1)

/-- `_get_autocomplete_prefix`: the offset in the line. -/
def getAutocompletePrefix (s : State) : Option (State × ℕ) := do
  let line ← s.line.write s.lineLength 0
  let s := { s with line }
  let out ← findPrefix s.terminated s.terminated
  some (s, s.terminated.length - out.length)

/-- `_dynamic_buffer_append`, of the bytes from one pointer to another. -/
def dynamicBufferAppend (buffer first last : List UInt8) : List UInt8 :=
  buffer ++ first.take (first.length - last.length)

/-- The character after a backslash. -/
def unquoted (c : UInt8) : Option UInt8 :=
  if c = backslash ∨ c = code '\'' ∨ c = quote ∨ c = code '$' then some c
  else if c = code 'e' then some 27
  else if c = code 'n' then some (code '\n')
  else if c = code 'r' then some (code '\r')
  else if c = code 't' then some (code '\t')
  else none

/-- The loop of `_unquote_string`. -/
def unquoteLoop (buffer copyStart : List UInt8) : List UInt8 → Option (List UInt8)
  | [] => none
  | c :: str =>
    if c = 0 then some (dynamicBufferAppend buffer copyStart str)
    else if c ≠ backslash then unquoteLoop buffer copyStart str
    else
      let buffer := dynamicBufferAppend buffer copyStart (c :: str)
      match str with
      | [] => none
      | d :: rest =>
        match unquoted d with
        | some x => unquoteLoop (buffer ++ [x]) rest rest
        | none => unquoteLoop buffer (c :: d :: rest) rest

/-- `_unquote_string` -/
def unquoteString (str : List UInt8) : Option (List UInt8) := unquoteLoop [] str str

/-- What `_start_autocomplete` hands to the callback: the offset of the prefix and its string. -/
def autocompletePrefix (s : State) : Option (ℕ × List UInt8) := do
  let (s, offset) ← getAutocompletePrefix s
  let string ← unquoteString (s.terminated.drop offset)
  some (offset, string)

/-- The prefix is found in the line, and its string ends with a zero. -/
def Contained (s : State) : Prop :=
  ∃ offset string, autocompletePrefix s = some (offset, string ++ [0]) ∧ offset ≤ s.lineLength ∧
    0 ∉ string

/-! ### Lines with closed quotes -/

/-- The text behind an opening quote up to the closing one, and the rest; a backslash escapes a
quote. -/
inductive Quoted : List UInt8 → List UInt8 → Prop
  | close (rest : List UInt8) : Quoted (quote :: rest) rest
  | escaped {text rest : List UInt8} (h : Quoted text rest) :
      Quoted (backslash :: quote :: text) rest
  | character {c : UInt8} {text rest : List UInt8} (hc : c ≠ quote)
      (hnext : c = backslash → text.head? ≠ some quote) (h : Quoted text rest) :
      Quoted (c :: text) rest

/-- Every quote is closed. -/
inductive Closed : List UInt8 → Prop
  | nil : Closed []
  | character {c : UInt8} {text : List UInt8} (hc : c ≠ quote) (h : Closed text) :
      Closed (c :: text)
  | quoted {text rest : List UInt8} (h : Quoted text rest) (hrest : Closed rest) :
      Closed (quote :: text)

/-- The backslashes at the end. -/
def trailing (text : List UInt8) : ℕ := (text.rtakeWhile (· = backslash)).length

section

variable {c : UInt8} {text rest rest' out p : List UInt8}

lemma Quoted.length_lt (h : Quoted text rest) : rest.length < text.length := by
  induction h with
  | close rest => exact Nat.lt_succ_self _
  | escaped h ih => exact ih.trans (by simp)
  | character hc hnext h ih => exact ih.trans (Nat.lt_succ_self _)

lemma Quoted.suffix (h : Quoted text rest) : rest <:+ text := by
  induction h with
  | close rest => exact List.suffix_cons _ _
  | escaped h ih => exact ih.trans ((List.suffix_cons _ _).trans (List.suffix_cons _ _))
  | character hc hnext h ih => exact ih.trans (List.suffix_cons _ _)

lemma Quoted.unique (h : Quoted text rest) (h' : Quoted text rest') : rest' = rest := by
  induction h with
  | close rest =>
    cases h' with
    | close => rfl
    | character hc => exact absurd rfl hc
  | escaped h ih =>
    cases h' with
    | escaped h' => exact ih h'
    | character hc hnext => exact absurd rfl (hnext rfl)
  | character hc hnext h ih =>
    cases h' with
    | close => exact absurd rfl hc
    | escaped => exact absurd rfl (hnext rfl)
    | character _ _ h' => exact ih h'

lemma closed_quote_iff (h : Quoted text rest) : Closed (quote :: text) ↔ Closed rest := by
  constructor
  · intro hclosed
    cases hclosed with
    | character hc => exact absurd rfl hc
    | quoted h' hrest => exact h.unique h' ▸ hrest
  · exact Closed.quoted h

lemma skipQuoted_stop (h : c = 0 ∨ c = quote) : skipQuoted out (c :: p) = findPrefix out p := by
  rw [skipQuoted.eq_def]
  exact if_pos h

lemma skipQuoted_escaped : skipQuoted out (backslash :: quote :: p) = skipQuoted out p := by
  rw [skipQuoted.eq_def]
  rfl

lemma skipQuoted_character (hzero : c ≠ 0) (hquote : c ≠ quote) (hne : p ≠ [])
    (hnext : c = backslash → p.head? ≠ some quote) :
    skipQuoted out (c :: p) = skipQuoted out p := by
  obtain ⟨d, p, rfl⟩ := List.exists_cons_of_ne_nil hne
  rw [skipQuoted.eq_def]
  dsimp only
  rw [if_neg (not_or.mpr ⟨hzero, hquote⟩)]
  split_ifs with hbackslash hd
  · exact absurd (congrArg some hd) (hnext hbackslash)
  · rfl
  · rfl

/-- The inner loop goes behind the closing quote, if there is one, and else behind the zero. -/
lemma skipQuoted_spec (out : List UInt8) (hzero : 0 ∉ text) :
    (∃ rest, Quoted text rest ∧ skipQuoted out (text ++ [0]) = findPrefix out (rest ++ [0])) ∨
      (∀ rest, ¬Quoted text rest) ∧ skipQuoted out (text ++ [0]) = none := by
  induction hlength : text.length using Nat.strong_induction_on generalizing text with
  | _ n ih =>
    subst hlength
    cases text with
    | nil =>
      refine .inr ⟨fun rest h => (by cases h), ?_⟩
      rw [List.nil_append, skipQuoted_stop (.inl rfl), findPrefix]
    | cons c text =>
      rw [List.mem_cons, not_or] at hzero
      rw [List.cons_append]
      by_cases hquote : c = quote
      · subst hquote
        exact .inl ⟨text, .close text, skipQuoted_stop (.inr rfl)⟩
      by_cases hescaped : c = backslash ∧ text.head? = some quote
      · obtain ⟨rfl, hhead⟩ := hescaped
        obtain ⟨text, rfl⟩ : ∃ l, text = quote :: l := by
          cases text with
          | nil => cases hhead
          | cons d text => exact ⟨text, by rw [Option.some.inj hhead]⟩
        rw [List.cons_append, skipQuoted_escaped]
        rcases ih text.length (by simp) (fun h => hzero.2 (List.mem_cons_of_mem _ h)) rfl with
          ⟨rest, hquoted, heq⟩ | ⟨hnone, heq⟩
        · exact .inl ⟨rest, .escaped hquoted, heq⟩
        · refine .inr ⟨fun rest h => ?_, heq⟩
          cases h with
          | escaped h => exact hnone rest h
          | character _ hnext => exact hnext rfl rfl
      · rw [skipQuoted_character (Ne.symm hzero.1) hquote (by simp)]
        · rcases ih text.length (by simp) hzero.2 rfl with ⟨rest, hquoted, heq⟩ | ⟨hnone, heq⟩
          · exact .inl ⟨rest, .character hquote (fun hc h => hescaped ⟨hc, h⟩) hquoted, heq⟩
          · refine .inr ⟨fun rest h => ?_, heq⟩
            cases h with
            | close => exact hquote rfl
            | escaped => exact hescaped ⟨rfl, rfl⟩
            | character _ _ h => exact hnone rest h
        · intro hc hhead
          cases text with
          | nil => exact absurd hhead (by decide)
          | cons d text => exact hescaped ⟨hc, hhead⟩

/-- The outer loop finds the start of the last word, if every quote is closed. -/
lemma findPrefix_spec (out : List UInt8) (hzero : 0 ∉ text) :
    (Closed text ∧ ∃ p, findPrefix out (text ++ [0]) = some p ∧
      (p = out ∨ ∃ l c m, text = l ++ c :: m ∧ isSeparator c = true ∧ p = m ++ [0])) ∨
      ¬Closed text ∧ findPrefix out (text ++ [0]) = none := by
  induction hlength : text.length using Nat.strong_induction_on generalizing text out with
  | _ n ih =>
    subst hlength
    cases text with
    | nil => exact .inl ⟨.nil, out, by rw [List.nil_append, findPrefix, if_pos rfl], .inl rfl⟩
    | cons c text =>
      rw [List.mem_cons, not_or] at hzero
      rw [List.cons_append, findPrefix, if_neg (Ne.symm hzero.1)]
      by_cases hquote : c = quote
      · subst hquote
        rw [if_pos rfl]
        rcases skipQuoted_spec out hzero.2 with ⟨rest, hquoted, heq⟩ | ⟨hnone, heq⟩
        · obtain ⟨l, rfl⟩ := hquoted.suffix
          have hrest : 0 ∉ rest := fun h => hzero.2 (List.mem_append_right l h)
          rw [closed_quote_iff hquoted]
          rcases ih rest.length (hquoted.length_lt.trans (Nat.lt_succ_self _)) out hrest rfl with
            ⟨hclosed, p, hp, hcases⟩ | ⟨hclosed, hp⟩
          · refine .inl ⟨hclosed, p, heq.trans hp, hcases.imp_right ?_⟩
            rintro ⟨l', d, m, rfl, hd, rfl⟩
            exact ⟨quote :: (l ++ l'), d, m, by simp, hd, rfl⟩
          · exact .inr ⟨hclosed, heq.trans hp⟩
        · refine .inr ⟨fun h => ?_, heq⟩
          cases h with
          | character hc => exact hc rfl
          | quoted h => exact hnone _ h
      · have hclosed : Closed (c :: text) ↔ Closed text := by
          refine ⟨fun h => ?_, .character hquote⟩
          cases h with
          | character _ h => exact h
          | quoted => exact absurd rfl hquote
        rw [if_neg hquote, hclosed]
        rcases ih text.length (Nat.lt_succ_self _)
          (if isSeparator c then text ++ [0] else out) hzero.2 rfl with
          ⟨hclosed, p, hp, rfl | ⟨l, d, m, rfl, hd, rfl⟩⟩ | ⟨hclosed, hp⟩
        · refine .inl ⟨hclosed, _, hp, ?_⟩
          split_ifs with hseparator
          · exact .inr ⟨[], c, text, rfl, hseparator, rfl⟩
          · exact .inl rfl
        · exact .inl ⟨hclosed, _, hp, .inr ⟨c :: l, d, m, rfl, hd, rfl⟩⟩
        · exact .inr ⟨hclosed, hp⟩

/-! ### Unquoting -/

lemma trailing_concat_backslash (l : List UInt8) :
    trailing (l ++ [backslash]) = trailing l + 1 := by
  rw [trailing, List.rtakeWhile_concat, if_pos (decide_eq_true rfl), List.length_append]
  rfl

lemma trailing_concat (hc : c ≠ backslash) (l : List UInt8) : trailing (l ++ [c]) = 0 := by
  rw [trailing, List.rtakeWhile_concat, if_neg fun h => hc (of_decide_eq_true h)]
  rfl

lemma trailing_append (l m : List UInt8) : trailing (l ++ m) =
    if ∀ c ∈ m, c = backslash then trailing l + m.length else trailing m := by
  induction m using List.reverseRecOn with
  | nil => simp
  | append_singleton m c ih =>
    rw [← List.append_assoc]
    by_cases hc : c = backslash
    · rw [hc, trailing_concat_backslash, trailing_concat_backslash, ih, List.length_append]
      simp only [List.forall_mem_append, List.forall_mem_singleton, and_true]
      split_ifs
      · exact Nat.add_assoc _ _ _
      · rfl
    · rw [trailing_concat hc, trailing_concat hc, if_neg]
      exact fun h => hc (h c (by simp))

lemma trailing_append_cons (hc : c ≠ backslash) (l m : List UInt8) :
    trailing (l ++ c :: m) = trailing m := by
  have hself := trailing_append [] m
  rw [List.nil_append] at hself
  rw [← List.singleton_append, ← List.append_assoc, trailing_append, trailing_concat hc]
  split_ifs with h
  · exact ((hself.trans (if_pos h)).symm)
  · rfl

lemma even_trailing_pair (c : UInt8) (text : List UInt8) :
    Even (trailing (backslash :: c :: text)) ↔ Even (trailing text) := by
  by_cases hc : c = backslash
  · have hself := trailing_append [] text
    have hpair := trailing_append [backslash, backslash] text
    rw [List.nil_append] at hself
    rw [hc, show backslash :: backslash :: text = [backslash, backslash] ++ text from rfl, hpair,
      hself]
    split_ifs with h
    · rw [show trailing [backslash, backslash] = 2 from rfl, show trailing [] = 0 from rfl,
        Nat.zero_add, Nat.even_add]
      exact iff_true_left (by decide)
    · rfl
  · exact iff_of_eq (congrArg Even (trailing_append_cons hc [backslash] text))

variable {buffer seg : List UInt8} {x : UInt8}

@[simp] lemma dynamicBufferAppend_append :
    dynamicBufferAppend buffer (seg ++ p) p = buffer ++ seg := by
  rw [dynamicBufferAppend, List.length_append, Nat.add_sub_cancel, List.take_left]

lemma unquoted_ne_zero (hc : c ≠ 0) (h : unquoted c = some x) : x ≠ 0 := by
  rw [unquoted] at h
  split_ifs at h
  all_goals
    cases h
    first | exact hc | decide

lemma unquoteLoop_spec (hbuffer : 0 ∉ buffer) (hseg : 0 ∉ seg) (htext : 0 ∉ text) :
    (Even (trailing text) ∧ ∃ string, unquoteLoop buffer (seg ++ (text ++ [0])) (text ++ [0]) =
      some (string ++ [0]) ∧ 0 ∉ string) ∨
      ¬Even (trailing text) ∧ unquoteLoop buffer (seg ++ (text ++ [0])) (text ++ [0]) = none := by
  induction hlength : text.length using Nat.strong_induction_on generalizing text buffer seg with
  | _ n ih =>
    subst hlength
    have happend : 0 ∉ buffer ++ seg := by
      rw [List.mem_append]
      exact not_or.mpr ⟨hbuffer, hseg⟩
    cases text with
    | nil =>
      refine .inl ⟨by decide, buffer ++ seg, ?_, happend⟩
      have hlast := @dynamicBufferAppend_append [] buffer (seg ++ [0])
      rw [List.append_nil] at hlast
      rw [List.nil_append, unquoteLoop, if_pos rfl, hlast, List.append_assoc]
    | cons c text =>
      rw [List.mem_cons, not_or] at htext
      have hc : c ≠ 0 := Ne.symm htext.1
      rw [List.cons_append, unquoteLoop, if_neg hc]
      by_cases hbackslash : c = backslash
      · subst hbackslash
        rw [if_neg (not_not.mpr rfl), dynamicBufferAppend_append]
        cases text with
        | nil =>
          -- The zero is taken for an escaped character.
          exact .inr ⟨by decide, rfl⟩
        | cons d text =>
          rw [List.mem_cons, not_or] at htext
          rw [even_trailing_pair]
          dsimp only [List.cons_append]
          cases hd : unquoted d with
          | some x =>
            refine @ih text.length (by simp) text (buffer ++ seg ++ [x]) [] ?_
              List.not_mem_nil htext.2.2 rfl
            rw [List.mem_append, List.mem_singleton]
            exact not_or.mpr ⟨happend, (unquoted_ne_zero (Ne.symm htext.2.1) hd).symm⟩
          | none =>
            refine @ih text.length (by simp) text (buffer ++ seg) [backslash, d] happend ?_
              htext.2.2 rfl
            rw [List.mem_cons, List.mem_singleton]
            exact not_or.mpr ⟨htext.1, htext.2.1⟩
      · rw [if_pos hbackslash, show c :: text = [] ++ c :: text from rfl,
          trailing_append_cons hbackslash [] text]
        have hnext := @ih text.length (by simp) text buffer (seg ++ [c]) hbuffer
          (by rw [List.mem_append, List.mem_singleton]; exact not_or.mpr ⟨hseg, htext.1⟩)
          htext.2 rfl
        rwa [List.append_assoc] at hnext

/-- The prefix is the line, or what is behind a separator; then it is unquoted. -/
lemma unquoteString_spec (htext : 0 ∉ text) :
    (Even (trailing text) ∧ ∃ string, unquoteString (text ++ [0]) = some (string ++ [0]) ∧
      0 ∉ string) ∨ ¬Even (trailing text) ∧ unquoteString (text ++ [0]) = none :=
  @unquoteLoop_spec text [] [] List.not_mem_nil List.not_mem_nil htext

lemma backslash_not_isSeparator (h : isSeparator c = true) : c ≠ backslash := by
  rintro rfl
  exact absurd h (by decide)

end

/-- A line editor that has read a text. -/
def ofText (text : List UInt8) : State :=
  let s := readlineStateInit ⟨fun i => text.getD i 0, fun _ => [], fun _ => 0, 0⟩ 255 8
  { s with lineLength := text.length }

example : autocompletePrefix (ofText (Format.codes "cat <\"a\\n")) = none := by decide +kernel

example : autocompletePrefix (ofText (Format.codes "cat <a\\n")) =
    some (5, [code 'a', 10, 0]) := by decide +kernel

/-- A quoted word, and one with a blank behind a backslash. -/
def quoted : State := ofText (Format.codes "ls \"a b\" c\\ d")

end KernelModel.Readline
