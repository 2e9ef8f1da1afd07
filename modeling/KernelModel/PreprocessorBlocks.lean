import KernelModel.Preprocessor
import Mathlib.Data.List.TakeWhile

/-!
The lines of a source, as the preprocessor meets them.

Blank lines go with the line behind them. What a directive does depends on its line only, and a
line of text is cut at its macros.
-/

namespace KernelModel.Glsl.Preprocessor

/-! ### Blocks -/

/-- A line that is not blank, with the whitespace before it and what follows it. -/
structure Block where
  space : Text
  body : Text
  rest : Text

def Block.IsDirective (b : Block) : Prop := head b.body = 0x23

instance (b : Block) : Decidable b.IsDirective := inferInstanceAs (Decidable (_ = _))

def blocksFrom : ℕ → Text → List Block
  | 0, _ => []
  | fuel + 1, src =>
    let line := src.dropWhile isWhitespace
    if line = [] then []
    else ⟨src.takeWhile isWhitespace, line.takeWhile (· ≠ newline), skipLine line⟩ ::
      blocksFrom fuel (skipLine line)

/-- The blocks of a source; behind the last one there is only whitespace. -/
def blocks (src : Text) : List Block := blocksFrom (src.length + 1) src

/-- The end of a line, or of the source. -/
def Ends (rest : Text) : Prop := rest = [] ∨ ∃ t, rest = newline :: t

structure Block.Valid (b : Block) : Prop where
  space : ∀ c ∈ b.space, isWhitespace c
  body : ∃ c t, b.body = c :: t ∧ isWhitespace c = false
  line : newline ∉ b.body
  ends : Ends b.rest

inductive Split : Text → List Block → Prop
  | done {src : Text} (h : ∀ c ∈ src, isWhitespace c) : Split src []
  | block {b : Block} {bs : List Block} (h : b.Valid) (hs : Split b.rest bs) :
    Split (b.space ++ b.body ++ b.rest) (b :: bs)

section

variable {l rest src : Text} {p : UInt8 → Bool}

lemma takeWhile_ends (hp : p newline = false) (h : Ends rest) :
    (l ++ rest).takeWhile p = l.takeWhile p ∧ (l ++ rest).dropWhile p = l.dropWhile p ++ rest := by
  induction l with
  | nil =>
    rcases h with rfl | ⟨t, rfl⟩
    · exact ⟨rfl, rfl⟩
    · rw [List.nil_append, List.takeWhile_cons, List.dropWhile_cons, hp]
      exact ⟨rfl, rfl⟩
  | cons c l ih =>
    rw [List.cons_append, List.takeWhile_cons, List.dropWhile_cons, List.takeWhile_cons,
      List.dropWhile_cons]
    cases p c with
    | false => exact ⟨rfl, rfl⟩
    | true => exact ⟨congrArg (c :: ·) ih.1, ih.2⟩

lemma skipLine_ends (src : Text) : Ends (skipLine src) := by
  rw [skipLine]
  cases hd : src.dropWhile (· ≠ newline) with
  | nil => exact .inl rfl
  | cons c t =>
    have hc := List.head_dropWhile_not (l := src) (fun x : UInt8 => decide (x ≠ newline))
      (by rw [hd]; exact List.cons_ne_nil c t)
    simp only [hd, List.head_cons, decide_eq_false_iff_not, not_not] at hc
    exact .inr ⟨t, by rw [hc]⟩

lemma skipBlanks_append (h : Ends rest) : skipBlanks (l ++ rest) = skipBlanks l ++ rest :=
  (takeWhile_ends rfl h).2

lemma skipLine_append (h : Ends rest) : skipLine (l ++ rest) = skipLine l ++ rest :=
  (takeWhile_ends rfl h).2

lemma skipLine_eq_nil (h : newline ∉ l) : skipLine l = [] := by
  rw [skipLine, List.dropWhile_eq_nil_iff]
  intro c hc
  rw [decide_eq_true_iff]
  rintro rfl
  exact h hc

lemma blocksFrom_split {fuel : ℕ} (h : src.length < fuel) : Split src (blocksFrom fuel src) := by
  induction fuel generalizing src with
  | zero => omega
  | succ fuel ih =>
    rw [blocksFrom]
    cases hline : src.dropWhile isWhitespace with
    | nil =>
      rw [if_pos rfl]
      exact .done (List.dropWhile_eq_nil_iff.mp hline)
    | cons c t =>
      rw [if_neg (List.cons_ne_nil c t)]
      have hc := List.head_dropWhile_not (l := src) isWhitespace
        (by rw [hline]; exact List.cons_ne_nil c t)
      simp only [hline, List.head_cons] at hc
      have hne : c ≠ newline := by
        rintro rfl
        cases hc
      have hlen : (skipLine (c :: t)).length < fuel := by
        have h1 :=
          (List.dropWhile_suffix (fun x : UInt8 => decide (x ≠ newline)) (l := t)).length_le
        have h2 := (List.dropWhile_suffix isWhitespace (l := src)).length_le
        rw [hline, List.length_cons] at h2
        rw [skipLine, List.dropWhile_cons, if_pos (by rwa [decide_eq_true_iff])]
        omega
      have hsplit := @Split.block
        ⟨src.takeWhile isWhitespace, (c :: t).takeWhile (· ≠ newline), skipLine (c :: t)⟩ _
        ⟨fun x hx => List.mem_takeWhile_imp hx, ?_, ?_, skipLine_ends _⟩ (ih hlen)
      · have hsrc : src.takeWhile isWhitespace ++ (c :: t).takeWhile (· ≠ newline) ++
            skipLine (c :: t) = src := by
          rw [List.append_assoc, skipLine, List.takeWhile_append_dropWhile, ← hline,
            List.takeWhile_append_dropWhile]
        rwa [hsrc] at hsplit
      · refine ⟨c, t.takeWhile (· ≠ newline), ?_, hc⟩
        rw [List.takeWhile_cons, if_pos (by rwa [decide_eq_true_iff])]
      · intro hmem
        have := List.mem_takeWhile_imp hmem
        simp at this

lemma blocks_split (src : Text) : Split src (blocks src) := blocksFrom_split (Nat.lt_succ_self _)

end

/-! ### Pieces -/

/-- Emitting a piece of text. -/
def append (s : State) (p : Text) : State := emitString s p 0

def emitAll (s : State) (ps : List Text) : State := ps.foldl append s

section

variable {s : State} {p r : Text} {ps qs : List Text}

@[simp] lemma emitAll_nil (s : State) : emitAll s [] = s := rfl

@[simp] lemma emitAll_cons (s : State) (p : Text) (ps : List Text) :
    emitAll s (p :: ps) = emitAll (append s p) ps := rfl

lemma emitAll_append (s : State) (ps qs : List Text) :
    emitAll s (ps ++ qs) = emitAll (emitAll s ps) qs := List.foldl_append

lemma emitString_slice (s : State) (r : Text) (hne : p ≠ []) (hlt : p.length < 2 ^ 32) :
    emitString s (p ++ r) p.length = append s p := by
  have hpos : p.length ≠ 0 := fun h => hne (List.length_eq_zero_iff.mp h)
  have hmod : p.length % 2 ^ 32 = p.length := Nat.mod_eq_of_lt hlt
  simp only [append, emitString, hmod, hpos, if_false, Nat.zero_mod, if_true,
    List.take_left, List.take_length]

lemma append_data (s : State) (hlt : p.length < 2 ^ 32) : (append s p).data = s.data ++ p := by
  have hmod : p.length % 2 ^ 32 = p.length := Nat.mod_eq_of_lt hlt
  simp only [append, emitString, Nat.zero_mod, if_true, hmod, List.take_length]

@[simp] lemma append_lines (s : State) (p : Text) : (append s p).lines = s.lines := rfl

@[simp] lemma append_macros (s : State) (p : Text) : (append s p).macros = s.macros := rfl

@[simp] lemma emitAll_lines (s : State) (ps : List Text) : (emitAll s ps).lines = s.lines := by
  induction ps generalizing s with
  | nil => rfl
  | cons p ps ih => rw [emitAll_cons, ih, append_lines]

@[simp] lemma emitAll_macros (s : State) (ps : List Text) :
    (emitAll s ps).macros = s.macros := by
  induction ps generalizing s with
  | nil => rfl
  | cons p ps ih => rw [emitAll_cons, ih, append_macros]

lemma emitAll_data (s : State) (h : ∀ p ∈ ps, p.length < 2 ^ 32) :
    (emitAll s ps).data = s.data ++ ps.flatten := by
  induction ps generalizing s with
  | nil => exact (List.append_nil _).symm
  | cons p ps ih =>
    rw [emitAll_cons, ih _ fun q hq => h q (List.mem_cons_of_mem p hq),
      append_data s (h p List.mem_cons_self), List.flatten_cons, List.append_assoc]

end

/-! ### Cutting a line at its macros -/

/-- The values of the macros that are defined. -/
abbrev Env := Text → Option Text

/-- The text before each macro of a line, with the value of the macro, and the text behind the
last one. `seg` is the text since the last macro, and `word` the identifier that is being read. -/
def cut (env : Env) : Text → Text → Text → List (Text × Text) × Text
  | seg, word, [] =>
    match if word = [] then none else env word with
    | some v => ([(seg, v)], [])
    | none => ([], seg ++ word)
  | seg, word, c :: cs =>
    if word = [] then
      if isIdentifierStart c then cut env seg [c] cs else cut env (seg ++ [c]) [] cs
    else if isIdentifier c then cut env seg (word ++ [c]) cs
    else
      match env word with
      | some v => let (uses, last) := cut env [c] [] cs; ((seg, v) :: uses, last)
      | none => cut env (seg ++ word ++ [c]) [] cs

/-- The pieces that the macros of a line and the text before them give. -/
def usePieces (uses : List (Text × Text)) : List Text := uses.flatMap fun u => [u.1, u.2]

section

variable {env : Env} {seg word l rest : Text} {c : UInt8}

lemma isIdentifier_of_start (h : isIdentifierStart c) : isIdentifier c := by
  rw [isIdentifier, h, Bool.true_or]

lemma cut_word (hword : word ≠ []) : cut env seg word l =
    match env (word ++ l.takeWhile isIdentifier) with
    | some v =>
      let (uses, last) := cut env [] [] (l.dropWhile isIdentifier)
      ((seg, v) :: uses, last)
    | none => cut env (seg ++ (word ++ l.takeWhile isIdentifier)) []
      (l.dropWhile isIdentifier) := by
  induction l generalizing word with
  | nil =>
    rw [cut, if_neg hword, List.takeWhile_nil, List.dropWhile_nil, List.append_nil]
    cases env word with
    | none => simp [cut]
    | some v => simp [cut]
  | cons c l ih =>
    rw [cut, if_neg hword, List.takeWhile_cons, List.dropWhile_cons]
    cases hc : isIdentifier c with
    | true =>
      rw [if_pos rfl, if_pos rfl, if_pos rfl, ih (by simp)]
      rw [List.append_assoc, List.singleton_append]
    | false =>
      have hstart : isIdentifierStart c = false := by
        cases hs : isIdentifierStart c with
        | true => rw [isIdentifier_of_start hs] at hc; cases hc
        | false => rfl
      rw [if_neg Bool.false_ne_true, if_neg Bool.false_ne_true, if_neg Bool.false_ne_true,
        List.append_nil]
      cases env word with
      | none =>
        dsimp only
        conv_rhs => rw [cut]
        rw [if_pos rfl, hstart, if_neg Bool.false_ne_true]
      | some v =>
        dsimp only
        conv_rhs => rw [cut]
        rw [if_pos rfl, hstart, if_neg Bool.false_ne_true, List.nil_append]

lemma cut_uses_ne_nil (hseg : seg ≠ [] ∨ ∀ c t, word ++ l = c :: t → isIdentifierStart c = false)
    (hword : word = [] ∨ ∃ c t, word = c :: t ∧ isIdentifierStart c) :
    ∀ u ∈ (cut env seg word l).1, u.1 ≠ [] := by
  induction l generalizing seg word with
  | nil =>
    rw [cut]
    rcases hword with rfl | ⟨c, t, rfl, hc⟩
    · rw [if_pos rfl]
      exact fun u hu => absurd hu List.not_mem_nil
    · have hseg' : seg ≠ [] := hseg.resolve_right fun h => by
        rw [h c t (List.append_nil _)] at hc
        cases hc
      rw [if_neg (List.cons_ne_nil c t)]
      split
      · intro u hu
        rw [List.mem_singleton] at hu
        exact hu ▸ hseg'
      · exact fun u hu => absurd hu List.not_mem_nil
  | cons c l ih =>
    rw [cut]
    rcases hword with rfl | ⟨d, t, rfl, hd⟩
    · rw [if_pos rfl]
      cases hc : isIdentifierStart c with
      | true =>
        have hseg' : seg ≠ [] := hseg.resolve_right fun h => by
          rw [h c l rfl] at hc
          cases hc
        exact ih (.inl hseg') (.inr ⟨c, [], rfl, hc⟩)
      | false => exact ih (.inl (by simp)) (.inl rfl)
    · have hseg' : seg ≠ [] := hseg.resolve_right fun h => by
        rw [h d (t ++ c :: l) rfl] at hd
        cases hd
      rw [if_neg (List.cons_ne_nil d t)]
      split_ifs
      · exact ih (.inl hseg') (.inr ⟨d, t ++ [c], rfl, hd⟩)
      · split
        · intro u hu
          rcases List.mem_cons.mp hu with rfl | hu
          · exact hseg'
          · exact ih (.inl (List.cons_ne_nil c [])) (.inl rfl) u hu
        · exact ih (.inl (by simp)) (.inl rfl)

end

/-! ### Lines of text -/

section

variable {s : State} {seg l rest : Text} {fuel : ℕ}

lemma slice_append (l src : Text) : slice (l ++ src) src = l := by
  rw [slice, List.length_append, Nat.add_sub_cancel, List.take_left]

@[simp] lemma findMacro_append (s : State) (p : Text) : findMacro (append s p) = findMacro s := rfl

lemma findMacro_emitAll (s : State) (ps : List Text) : findMacro (emitAll s ps) = findMacro s := by
  funext x
  rw [findMacro, findMacro, emitAll_macros]

/-- **A line of text** is emitted in the pieces it is cut into; what is behind its last macro is
left over. -/
lemma textLine_spec (hfuel : (l ++ rest).length ≤ fuel) (hl : newline ∉ l) (hends : Ends rest)
    (huses : ∀ u ∈ (cut (findMacro s) seg [] l).1, u.1 ≠ [])
    (hlength : ∀ p ∈ usePieces (cut (findMacro s) seg [] l).1, p.length < 2 ^ 32) :
    textLine fuel s (seg ++ (l ++ rest)) (l ++ rest) =
      (emitAll s (usePieces (cut (findMacro s) seg [] l).1), (cut (findMacro s) seg [] l).2 ++ rest,
        rest) := by
  have hcut : ∀ seg, cut (findMacro s) seg [] [] = ([], seg) := fun seg => by simp [cut]
  induction fuel generalizing s seg l with
  | zero =>
    obtain ⟨rfl, rfl⟩ :=
      List.append_eq_nil_iff.mp (List.length_eq_zero_iff.mp (Nat.le_zero.mp hfuel))
    rw [hcut]
    rfl
  | succ fuel ih =>
    cases l with
    | nil =>
      rw [hcut]
      rcases hends with rfl | ⟨t, rfl⟩
      · rfl
      · rw [List.nil_append, textLine, if_pos rfl]
        rfl
    | cons c l =>
      have hc : c ≠ newline := fun h => hl (h ▸ List.mem_cons_self)
      have hl' : newline ∉ l := fun h => hl (List.mem_cons_of_mem c h)
      rw [List.cons_append, List.length_cons] at hfuel
      rw [List.cons_append, textLine]
      dsimp only
      rw [if_neg hc]
      rw [cut, if_pos rfl] at huses hlength ⊢
      cases hstart : isIdentifierStart c with
      | false =>
        rw [hstart, if_neg Bool.false_ne_true] at huses hlength
        rw [if_neg Bool.false_ne_true, if_neg Bool.false_ne_true]
        have hrec := @ih s (seg ++ [c]) _ (by omega) hl' huses hlength hcut
        rw [List.append_assoc] at hrec
        exact hrec
      | true =>
        rw [hstart, if_pos rfl, cut_word (List.cons_ne_nil c [])] at huses hlength
        rw [if_pos rfl, if_pos rfl, cut_word (List.cons_ne_nil c [])]
        obtain ⟨htake, hdrop⟩ := @takeWhile_ends l rest isIdentifier rfl hends
        have hword : slice (c :: (l ++ rest)) (l.dropWhile isIdentifier ++ rest) =
            [c] ++ l.takeWhile isIdentifier := by
          have hsplit : c :: (l ++ rest) = ([c] ++ l.takeWhile isIdentifier) ++
              (l.dropWhile isIdentifier ++ rest) := by
            rw [List.append_assoc, ← List.append_assoc (l.takeWhile isIdentifier),
              List.takeWhile_append_dropWhile, List.singleton_append]
          rw [hsplit, slice_append]
        have hlt : (l.dropWhile isIdentifier ++ rest).length ≤ fuel := by
          have := (List.dropWhile_suffix isIdentifier (l := l)).length_le
          rw [List.length_append] at hfuel ⊢
          omega
        have hnl : newline ∉ l.dropWhile isIdentifier := fun h =>
          hl' ((List.dropWhile_suffix isIdentifier).subset h)
        rw [hdrop, hword]
        cases hfind : findMacro s ([c] ++ l.takeWhile isIdentifier) with
        | none =>
          rw [hfind] at huses hlength
          dsimp only at huses hlength ⊢
          have hrec := @ih s (seg ++ ([c] ++ l.takeWhile isIdentifier)) _ hlt hnl huses
            hlength hcut
          rw [← hrec]
          congr 1
          rw [List.append_assoc, List.append_assoc, ← List.append_assoc (l.takeWhile isIdentifier),
            List.takeWhile_append_dropWhile, List.singleton_append]
        | some v =>
          rw [hfind] at huses hlength
          dsimp only at huses hlength ⊢
          obtain ⟨⟨uses, last⟩, hr⟩ : ∃ r, cut (findMacro s) [] [] (l.dropWhile isIdentifier) = r :=
            ⟨_, rfl⟩
          rw [hr] at huses hlength ⊢
          have hrec := @ih (append (append s seg) v) [] _ hlt hnl
            (by rw [findMacro_append, findMacro_append, hr]
                exact fun u hu => huses u (List.mem_cons_of_mem _ hu))
            (by rw [findMacro_append, findMacro_append, hr]
                exact fun p hp => hlength p (List.mem_append_right [seg, v] hp)) hcut
          rw [findMacro_append, findMacro_append, hr] at hrec
          rw [slice_append, emitString_slice s _ (huses _ List.mem_cons_self)
            (hlength seg List.mem_cons_self)]
          exact hrec

end

/-! ### Numbers -/

/-- The value of a row of digits. -/
def digitsValue (digit : UInt8 → ℕ) (base value : ℕ) (l : Text) : ℕ :=
  l.foldl (fun v c => v * base + digit c) value

/-- The value of the number at the start of a text. -/
def numeral (l : Text) : ℕ :=
  match l.takeWhile isIdentifier with
  | 0x30 :: c :: cs =>
    if c = 0x78 ∨ c = 0x58 then digitsValue hexDigit 16 0 cs else digitsValue decDigit 8 0 (c :: cs)
  | cs => digitsValue decDigit 10 0 cs

section

variable {l rest r : Text} {ok : UInt8 → Bool} {digit : UInt8 → ℕ} {base v v' : ℕ}

lemma digitsValue_mod (digit : UInt8 → ℕ) (base v : ℕ) (l : Text) :
    digitsValue digit base (v % 2 ^ 64) l % 2 ^ 64 = digitsValue digit base v l % 2 ^ 64 := by
  induction l generalizing v with
  | nil => exact Nat.mod_mod _ _
  | cons c l ih =>
    have hstep : (v % 2 ^ 64 * base + digit c) % 2 ^ 64 = (v * base + digit c) % 2 ^ 64 := by
      rw [Nat.add_mod, Nat.mod_mul_mod, ← Nat.add_mod]
    have hl := ih (v % 2 ^ 64 * base + digit c)
    rw [hstep, ih] at hl
    exact hl.symm

/-- The digits are read to the end of the number, modulo `2 ^ 64`. -/
lemma parseDigits_spec (hends : Ends rest) (hv : v < 2 ^ 64)
    (h : parseDigits ok digit base v (l ++ rest) = .ok (v', r)) :
    v' = digitsValue digit base v (l.takeWhile isIdentifier) % 2 ^ 64 ∧
      r = l.dropWhile isIdentifier ++ rest := by
  induction l generalizing v with
  | nil =>
    have hstop : parseDigits ok digit base v ([] ++ rest) = .ok (v, rest) := by
      rcases hends with rfl | ⟨t, rfl⟩
      · rfl
      · exact if_neg Bool.false_ne_true
    rw [hstop] at h
    cases h
    exact ⟨(Nat.mod_eq_of_lt hv).symm, rfl⟩
  | cons c l ih =>
    rw [List.cons_append, parseDigits] at h
    rw [List.takeWhile_cons, List.dropWhile_cons]
    cases hc : isIdentifier c with
    | false =>
      rw [hc, if_neg Bool.false_ne_true] at h
      cases h
      exact ⟨(Nat.mod_eq_of_lt hv).symm, rfl⟩
    | true =>
      rw [hc, if_pos rfl] at h
      split_ifs at h
      obtain ⟨hv', hr⟩ := ih (Nat.mod_lt _ (by norm_num)) h
      rw [digitsValue_mod] at hv'
      exact ⟨hv', hr⟩

/-- What the value of a number is made of, when its first digit is not zero. -/
lemma numeral_of_ne {c : UInt8} (hc : isIdentifier c) (hne : c ≠ 0x30) :
    numeral (c :: l) = digitsValue decDigit 10 0 ((c :: l).takeWhile isIdentifier) := by
  rw [numeral, List.takeWhile_cons, if_pos hc]
  split
  · rename_i heq
    exact absurd (List.cons.inj heq).1 hne
  · rfl

lemma numeral_of_hex {c : UInt8} (hc : c = 0x78 ∨ c = 0x58) :
    numeral (0x30 :: c :: l) = digitsValue hexDigit 16 0 (l.takeWhile isIdentifier) := by
  have hident : isIdentifier c := by rcases hc with rfl | rfl <;> rfl
  rw [numeral, List.takeWhile_cons, if_pos (by decide), List.takeWhile_cons, if_pos hident]
  exact if_pos hc

lemma numeral_of_oct (h : head l ≠ 0x78 ∧ head l ≠ 0x58) :
    numeral (0x30 :: l) = digitsValue decDigit 8 0 (l.takeWhile isIdentifier) := by
  rw [numeral, List.takeWhile_cons, if_pos (by decide)]
  cases l with
  | nil => rfl
  | cons c l =>
    rw [List.takeWhile_cons]
    split_ifs
    · exact if_neg fun hc => hc.elim h.1 h.2
    · rfl

lemma parseInt_spec (hends : Ends rest) (hdigit : isDigit (head (l ++ rest)))
    (h : parseInt (l ++ rest) = .ok (v, r)) :
    v = numeral l % 2 ^ 64 ∧ r = l.dropWhile isIdentifier ++ rest := by
  have hpos : 0 < 2 ^ 64 := by norm_num
  cases l with
  | nil => rcases hends with rfl | ⟨t, rfl⟩ <;> cases hdigit
  | cons c l =>
    have hident : isIdentifier c := by
      rw [isIdentifier, show isDigit c = true from hdigit, Bool.or_true]
    rw [parseInt] at h
    by_cases hzero : c = 0x30
    · subst hzero
      rw [if_neg (not_not_intro (show head (0x30 :: l ++ rest) = 0x30 from rfl))] at h
      dsimp only [List.cons_append, List.tail_cons] at h
      have hdrop : (0x30 :: l).dropWhile isIdentifier = l.dropWhile isIdentifier := rfl
      rw [hdrop]
      split_ifs at h with hoct hhex
      · have hhead : head l ≠ 0x78 ∧ head l ≠ 0x58 := by
          cases l with
          | nil => decide
          | cons d l => exact hoct
        rw [numeral_of_oct hhead]
        exact parseDigits_spec hends hpos h
      · cases l with
        | nil =>
          rcases hends with rfl | ⟨t, rfl⟩
          · exact absurd (show (0 : UInt8) ≠ 0x78 ∧ (0 : UInt8) ≠ 0x58 by decide) hoct
          · exact absurd (show newline ≠ 0x78 ∧ newline ≠ 0x58 by decide) hoct
        | cons d l =>
          have hd : d = 0x78 ∨ d = 0x58 := by
            by_contra hne
            exact hoct (not_or.mp hne)
          rw [numeral_of_hex hd]
          have hident' : isIdentifier d := by rcases hd with rfl | rfl <;> rfl
          rw [List.dropWhile_cons, if_pos hident']
          exact parseDigits_spec hends hpos h
    · rw [if_pos (show head (c :: l ++ rest) ≠ 0x30 from hzero), if_pos hdigit] at h
      rw [numeral_of_ne hident hzero]
      exact parseDigits_spec hends hpos h

end

/-! ### Directives -/

/-- What a directive does. -/
inductive Directive
  | define (name value : Text)
  | undef (name : Text)
  | line (number : ℕ) (file : Option ℕ)
  | other

/-- The directive of a line, from its name on. -/
def directiveOf (l : Text) : Directive :=
  if let some l := beginsWithWord l (ascii "define") then
    let l := skipBlanks l
    .define (l.takeWhile isIdentifier) (skipBlanks (l.dropWhile isIdentifier))
  else if let some l := beginsWithWord l (ascii "undef") then
    .undef ((skipBlanks l).takeWhile isIdentifier)
  else if let some l := beginsWithWord l (ascii "line") then
    let l := skipBlanks l
    let file := skipBlanks (l.dropWhile isIdentifier)
    .line (numeral l) (if file = [] then none else some (numeral file))
  else .other

def Block.directive (b : Block) : Directive := directiveOf (skipBlanks b.body.tail)

/-- The number of the file that the last entry stands for. -/
def State.file (s : State) : ℕ := (s.lines.getLast?.map Line.file).getD 0

def State.apply (s : State) : Directive → State
  | .define name value => createMacro s name value
  | .undef name => deleteMacro s name
  | .line number file => emitLine s number (file.getD s.file)
  | .other => s

section

variable {s s' : State} {l rest r w : Text} {first : Bool}

lemma isPrefixOf_ends (hw : newline ∉ w) (hends : Ends rest) :
    w.isPrefixOf (l ++ rest) = w.isPrefixOf l := by
  rw [Bool.eq_iff_iff, List.isPrefixOf_iff_prefix, List.isPrefixOf_iff_prefix]
  constructor
  · intro h
    rcases List.prefix_or_prefix_of_prefix h (List.prefix_append l rest) with hl | ⟨t, rfl⟩
    · exact hl
    · rw [List.prefix_append_right_inj] at h
      rcases hends with rfl | ⟨u, rfl⟩
      · rw [List.prefix_nil] at h
        rw [h, List.append_nil]
      · cases t with
        | nil => rw [List.append_nil]
        | cons c t =>
          obtain rfl := (List.cons_prefix_cons.mp h).1
          exact absurd (List.mem_append_right l List.mem_cons_self) hw
  · exact fun h => h.trans (List.prefix_append l rest)

lemma beginsWithWord_ends (hw : newline ∉ w) (hends : Ends rest) :
    beginsWithWord (l ++ rest) w = (beginsWithWord l w).map (· ++ rest) := by
  rw [beginsWithWord, beginsWithWord, isPrefixOf_ends hw hends]
  cases hpre : w.isPrefixOf l with
  | false => simp
  | true =>
    obtain ⟨t, rfl⟩ := List.isPrefixOf_iff_prefix.mp hpre
    rw [List.append_assoc, List.drop_left, List.drop_left]
    cases t with
    | nil =>
      have hrest : rest = [] ∨ isWhitespace (head rest) := by
        rcases hends with rfl | ⟨u, rfl⟩
        · exact .inl rfl
        · exact .inr rfl
      rw [List.nil_append, if_pos ⟨rfl, hrest⟩, if_pos ⟨rfl, .inl rfl⟩]
      rfl
    | cons c t =>
      by_cases hc : isWhitespace c
      · rw [if_pos ⟨rfl, .inr hc⟩, if_pos ⟨rfl, .inr hc⟩]
        rfl
      · rw [if_neg, if_neg]
        · rfl
        · rintro ⟨-, h | h⟩
          · cases h
          · exact hc h
        · rintro ⟨-, h | h⟩
          · cases h
          · exact hc h

lemma beginsWithWord_some (hw : newline ∉ w) (hends : Ends rest) {src : Text}
    (h : beginsWithWord (l ++ rest) w = some src) :
    ∃ t, src = t ++ rest ∧ beginsWithWord l w = some t ∧ t <:+ l := by
  rw [beginsWithWord_ends hw hends] at h
  obtain ⟨t, ht, rfl⟩ := Option.map_eq_some_iff.mp h
  refine ⟨t, rfl, ht, ?_⟩
  rw [beginsWithWord] at ht
  split_ifs at ht
  exact Option.some.inj ht ▸ List.drop_suffix _ _

lemma skipLine_rest (h : newline ∉ l) (hends : Ends rest) : skipLine (l ++ rest) = rest := by
  rw [skipLine_append hends, skipLine_eq_nil h, List.nil_append]

lemma takeWhile_line (h : newline ∉ l) (hends : Ends rest) :
    (l ++ rest).takeWhile (· ≠ newline) = l := by
  rw [(takeWhile_ends rfl hends).1, List.takeWhile_eq_self_iff]
  intro c hc
  rw [decide_eq_true_iff]
  rintro rfl
  exact h hc

lemma not_mem_dropWhile {p : UInt8 → Bool} (h : newline ∉ l) : newline ∉ l.dropWhile p :=
  fun hmem => h ((List.dropWhile_suffix p).subset hmem)

lemma head_append_eq_newline (h : newline ∉ l) (hhead : head (l ++ rest) = newline) : l = [] := by
  cases l with
  | nil => rfl
  | cons c l =>
    obtain rfl : c = newline := hhead
    exact absurd List.mem_cons_self h

lemma parseDefine_spec (hl : newline ∉ l) (hends : Ends rest)
    (h : parseDefine s (l ++ rest) = .ok (s', r)) :
    s' = s.apply (.define ((skipBlanks l).takeWhile isIdentifier)
        (skipBlanks ((skipBlanks l).dropWhile isIdentifier))) ∧ skipLine r = rest ∧
      findMacro s ((skipBlanks l).takeWhile isIdentifier) = none := by
  rw [parseDefine, skipBlanks_append hends] at h
  obtain ⟨htake, hdrop⟩ := @takeWhile_ends (skipBlanks l) rest isIdentifier rfl hends
  have hnl : newline ∉ skipBlanks ((skipBlanks l).dropWhile isIdentifier) :=
    not_mem_dropWhile (not_mem_dropWhile (not_mem_dropWhile hl))
  dsimp only at h
  rw [htake, hdrop, skipBlanks_append hends] at h
  split_ifs at h with hstart hparen hfind
  obtain ⟨rfl, rfl⟩ := Prod.mk.inj (Except.ok.inj h)
  refine ⟨?_, ?_, Option.not_isSome_iff_eq_none.mp hfind⟩
  · rw [takeWhile_line hnl hends]
    rfl
  · rw [skipLine_rest hnl hends]
    exact skipLine_rest List.not_mem_nil hends

lemma parseUndef_spec (hl : newline ∉ l) (hends : Ends rest)
    (h : parseUndef s (l ++ rest) = .ok (s', r)) :
    s' = s.apply (.undef ((skipBlanks l).takeWhile isIdentifier)) ∧ skipLine r = rest := by
  rw [parseUndef, skipBlanks_append hends] at h
  obtain ⟨htake, hdrop⟩ := @takeWhile_ends (skipBlanks l) rest isIdentifier rfl hends
  rw [htake, hdrop] at h
  split_ifs at h
  obtain ⟨rfl, rfl⟩ := Prod.mk.inj (Except.ok.inj h)
  exact ⟨rfl, skipLine_rest (not_mem_dropWhile (not_mem_dropWhile hl)) hends⟩

lemma parseLine_spec (hl : newline ∉ l) (hends : Ends rest)
    (h : parseLine s (l ++ rest) = .ok (s', r)) :
    let file := skipBlanks ((skipBlanks l).dropWhile isIdentifier)
    s' = s.apply (.line (numeral (skipBlanks l))
      (if file = [] then none else some (numeral file))) ∧
      skipLine r = rest := by
  have hmod : ∀ n, n % 2 ^ 64 % 2 ^ 32 = n % 2 ^ 32 := fun n => by omega
  rw [parseLine, skipBlanks_append hends] at h
  dsimp only at h
  split_ifs at h with hdigit
  cases hnumber : parseInt (skipBlanks l ++ rest) with
  | error e =>
    rw [hnumber] at h
    cases h
  | ok p =>
    obtain ⟨n, src⟩ := p
    obtain ⟨rfl, rfl⟩ := parseInt_spec hends hdigit hnumber
    have hnl : newline ∉ skipBlanks ((skipBlanks l).dropWhile isIdentifier) :=
      not_mem_dropWhile (not_mem_dropWhile (not_mem_dropWhile hl))
    rw [hnumber] at h
    simp only [bind, Except.bind, skipBlanks_append hends] at h
    split_ifs at h with hend hfile
    · obtain ⟨rfl, rfl⟩ := Prod.mk.inj (Except.ok.inj h)
      have hnil := head_append_eq_newline hnl hend
      dsimp only
      rw [if_pos hnil, hnil, List.nil_append]
      refine ⟨?_, skipLine_rest List.not_mem_nil hends⟩
      simp only [State.apply, emitLine, hmod, Option.getD_none, State.file]
    · cases hfileNumber : parseInt (skipBlanks ((skipBlanks l).dropWhile isIdentifier) ++ rest) with
      | error e =>
        rw [hfileNumber] at h
        cases h
      | ok p =>
        obtain ⟨m, src⟩ := p
        obtain ⟨rfl, rfl⟩ := parseInt_spec hends hfile hfileNumber
        rw [hfileNumber] at h
        obtain ⟨rfl, rfl⟩ := Prod.mk.inj (Except.ok.inj h)
        refine ⟨?_, skipLine_rest (not_mem_dropWhile hnl) hends⟩
        have hne : skipBlanks ((skipBlanks l).dropWhile isIdentifier) ≠ [] := by
          intro hnil
          rw [hnil] at hfile
          rcases hends with rfl | ⟨t, rfl⟩ <;> cases hfile
        dsimp only
        rw [if_neg hne]
        simp only [State.apply, emitLine, hmod, Option.getD_some]

lemma parseVersion_spec (hl : newline ∉ l) (hends : Ends rest)
    (h : parseVersion (l ++ rest) = .ok r) : skipLine r = rest := by
  rw [parseVersion, skipBlanks_append hends] at h
  dsimp only at h
  split_ifs at h with hdigit
  cases hnumber : parseInt (skipBlanks l ++ rest) with
  | error e =>
    rw [hnumber] at h
    cases h
  | ok p =>
    obtain ⟨n, src⟩ := p
    obtain ⟨-, rfl⟩ := parseInt_spec hends hdigit hnumber
    have hnl : newline ∉ skipBlanks ((skipBlanks l).dropWhile isIdentifier) :=
      not_mem_dropWhile (not_mem_dropWhile (not_mem_dropWhile hl))
    rw [hnumber] at h
    simp only [bind, Except.bind, skipBlanks_append hends] at h
    split_ifs at h with hversion hend
    · cases h
      exact skipLine_rest hnl hends
    · split at h
      · rename_i hcore
        obtain ⟨t, rfl, -, hsuffix⟩ := beginsWithWord_some (by decide) hends hcore
        cases h
        exact skipLine_rest (fun hmem => hnl (hsuffix.subset hmem)) hends
      · cases h

lemma beginsWithWord_eq_some {t : Text} (h : beginsWithWord l w = some t) :
    l = w ++ t ∧ (t = [] ∨ isWhitespace (head t)) := by
  rw [beginsWithWord] at h
  split_ifs at h with hw
  obtain ⟨u, rfl⟩ := List.isPrefixOf_iff_prefix.mp hw.1
  obtain rfl := Option.some.inj h
  rw [List.drop_left] at hw ⊢
  exact ⟨rfl, hw.2⟩

lemma beginsWithWord_unique {w' t t' : Text} (hw : ∀ c ∈ w, isWhitespace c = false)
    (hw' : ∀ c ∈ w', isWhitespace c = false) (h : beginsWithWord l w = some t)
    (h' : beginsWithWord l w' = some t') : w = w' := by
  obtain ⟨rfl, ht⟩ := beginsWithWord_eq_some h
  obtain ⟨heq, ht'⟩ := beginsWithWord_eq_some h'
  have hnil : ∀ {v u x : Text}, (∀ c ∈ v ++ u, isWhitespace c = false) →
      (u ++ x = [] ∨ isWhitespace (head (u ++ x))) → u = [] := by
    intro v u x hv hx
    cases u with
    | nil => rfl
    | cons c u =>
      rcases hx with hx | hx
      · cases hx
      · rw [show isWhitespace (head (c :: u ++ x)) = false from
          hv c (List.mem_append_right v List.mem_cons_self)] at hx
        cases hx
  rcases List.append_eq_append_iff.mp heq with ⟨u, rfl, rfl⟩ | ⟨u, rfl, rfl⟩
  · rw [hnil hw' ht, List.append_nil]
  · rw [hnil hw ht', List.append_nil]

lemma beginsWithWord_eq_none {w' t : Text} (hw : ∀ c ∈ w, isWhitespace c = false)
    (hw' : ∀ c ∈ w', isWhitespace c = false) (h : beginsWithWord l w = some t) (hne : w ≠ w') :
    beginsWithWord l w' = none := by
  cases h' : beginsWithWord l w' with
  | none => rfl
  | some t' => exact absurd (beginsWithWord_unique hw hw' h h') hne

/-- **A directive** does what its line says, and ends in its line. -/
lemma directive_spec (hl : newline ∉ l) (hends : Ends rest)
    (h : directive s first (l ++ rest) = .ok (s', r)) :
    s' = s.apply (directiveOf l) ∧ skipLine r = rest ∧
      ∀ name value, directiveOf l = .define name value → findMacro s name = none := by
  have hb : ∀ w, newline ∉ w → beginsWithWord (l ++ rest) w =
      (beginsWithWord l w).map (· ++ rest) := fun w hw => beginsWithWord_ends hw hends
  have hsuffix : ∀ {w t : Text}, beginsWithWord l w = some t → newline ∉ t := by
    intro w t ht hmem
    obtain ⟨rfl, -⟩ := beginsWithWord_eq_some ht
    exact hl (List.mem_append_right w hmem)
  rw [directive, hb _ (by decide), hb _ (by decide), hb _ (by decide), hb _ (by decide)] at h
  cases hversion : beginsWithWord l (ascii "version") with
  | some t =>
    rw [hversion] at h
    have hother : directiveOf l = .other := by
      have hword : ∀ w : Text, (w.all fun c => !isWhitespace c) → ∀ c ∈ w, isWhitespace c = false :=
        fun w hw => by simpa using hw
      have hnone : ∀ w, (w.all fun c => !isWhitespace c) → ascii "version" ≠ w →
          beginsWithWord l w = none := fun w hw hne =>
        beginsWithWord_eq_none (hword _ (by decide)) (hword w hw) hversion hne
      rw [directiveOf, hnone _ (by decide) (by decide), hnone _ (by decide) (by decide),
        hnone _ (by decide) (by decide)]
    dsimp only [Option.map_some] at h
    split_ifs at h
    cases hparse : parseVersion (t ++ rest) with
    | error e =>
      rw [hparse] at h
      cases h
    | ok src =>
      rw [hparse] at h
      cases h
      rw [hother]
      exact ⟨rfl, parseVersion_spec (hsuffix hversion) hends hparse, fun _ _ hd => by cases hd⟩
  | none =>
    rw [hversion] at h
    dsimp only [Option.map_none] at h
    rw [directiveOf]
    cases hdefine : beginsWithWord l (ascii "define") with
    | some t =>
      rw [hdefine] at h
      obtain ⟨hs, hr, hfind⟩ := parseDefine_spec (hsuffix hdefine) hends h
      refine ⟨hs, hr, ?_⟩
      rintro name value hd
      cases hd
      exact hfind
    | none =>
      rw [hdefine] at h
      dsimp only [Option.map_none] at h ⊢
      cases hundef : beginsWithWord l (ascii "undef") with
      | some t =>
        rw [hundef] at h
        obtain ⟨hs, hr⟩ := parseUndef_spec (hsuffix hundef) hends h
        exact ⟨hs, hr, fun _ _ hd => by cases hd⟩
      | none =>
        rw [hundef] at h
        dsimp only [Option.map_none] at h ⊢
        split_ifs at h
        cases hline : beginsWithWord l (ascii "line") with
        | some t =>
          rw [hline] at h
          obtain ⟨hs, hr⟩ := parseLine_spec (hsuffix hline) hends h
          exact ⟨hs, hr, fun _ _ hd => by cases hd⟩
        | none =>
          rw [hline] at h
          cases h

end

/-! ### Runs -/

/-- What is emitted for a block. A line that ends with a macro has an empty slice behind it, for
which all of the source that follows is emitted. -/
def Block.pieces (env : Env) (b : Block) : List Text :=
  if b.IsDirective then List.replicate (b.space.count newline) [newline]
  else
    let (uses, last) := cut env b.space [] b.body
    usePieces uses ++ [if last = [] then b.rest else last]

/-- What a block does. -/
def step (s : State) (b : Block) : State :=
  emitAll (if b.IsDirective then s.apply b.directive else s) (b.pieces (findMacro s))

section

variable {s s' : State} {src : Text} {bs : List Block} {b : Block} {first : Bool} {fuel : ℕ}

lemma emitChar_newline (s : State) : emitChar s newline = append s [newline] := rfl

lemma emitMissingNewlines_spec (s : State) (l src : Text) : emitMissingNewlines s (l ++ src) src =
    emitAll s (List.replicate (l.count newline) [newline]) := by
  rw [emitMissingNewlines, slice_append]
  induction l generalizing s with
  | nil => rfl
  | cons c l ih =>
    rw [List.foldl_cons, ih, List.count_cons]
    by_cases hc : c = newline
    · subst hc
      rw [if_pos rfl, beq_self_eq_true, if_pos rfl, List.replicate_succ, emitAll_cons,
        emitChar_newline]
    · rw [if_neg hc, beq_eq_false_iff_ne.mpr hc, if_neg Bool.false_ne_true, Nat.add_zero]

lemma Block.Valid.newlines (h : b.Valid) :
    (b.space ++ b.body).count newline = b.space.count newline := by
  rw [List.count_append, List.count_eq_zero_of_not_mem h.line, Nat.add_zero]

/-- The lines of a block whose macros come behind some text each. -/
structure Block.Plain (s : State) (b : Block) : Prop where
  uses : ¬b.IsDirective → ∀ u ∈ (cut (findMacro s) b.space [] b.body).1, u.1 ≠ []
  length : ¬b.IsDirective → ∀ p ∈ usePieces (cut (findMacro s) b.space [] b.body).1,
    p.length < 2 ^ 32
  last : ¬b.IsDirective → (cut (findMacro s) b.space [] b.body).2.length < 2 ^ 32

/-- All blocks are plain where they are met. -/
def AllPlain : State → List Block → Prop
  | _, [] => True
  | s, b :: bs => b.Plain s ∧ AllPlain (step s b) bs

/-- The names that are defined are new. -/
def NewNames : State → List Block → Prop
  | _, [] => True
  | s, b :: bs => (b.IsDirective → ∀ name value, b.directive = .define name value →
      findMacro s name = none) ∧ NewNames (step s b) bs

/-- **The loop over a source** goes from block to block. -/
lemma addFileLoop_spec (hsplit : Split src bs) (hfuel : src.length < fuel)
    (hplain : AllPlain s bs) : ∃ r, addFileLoop fuel s first src = some r ∧
      ∀ s', r = .ok s' → s' = append (bs.foldl step s) [newline] ∧ NewNames s bs := by
  induction hsplit generalizing s first fuel with
  | @done src h =>
    obtain ⟨fuel, rfl⟩ : ∃ n, fuel = n + 1 := ⟨fuel - 1, by omega⟩
    rw [addFileLoop, List.dropWhile_eq_nil_iff.mpr h]
    refine ⟨_, rfl, ?_⟩
    rintro s' hs'
    cases hs'
    exact ⟨rfl, trivial⟩
  | @block b bs h hsplit ih =>
    obtain ⟨fuel, rfl⟩ : ∃ n, fuel = n + 1 := ⟨fuel - 1, by omega⟩
    obtain ⟨hb, hbs⟩ := hplain
    obtain ⟨c, t, hbody, hc⟩ := h.body
    have hdrop : (b.space ++ b.body ++ b.rest).dropWhile isWhitespace = c :: (t ++ b.rest) := by
      rw [List.append_assoc, List.dropWhile_append_of_pos h.space, hbody, List.cons_append,
        List.dropWhile_cons, hc]
      rfl
    have hlt : b.rest.length < fuel := by
      rw [List.length_append, List.length_append, hbody, List.length_cons] at hfuel
      omega
    have ht : newline ∉ t := fun hmem => h.line (hbody ▸ List.mem_cons_of_mem c hmem)
    rw [addFileLoop, hdrop]
    dsimp only
    by_cases hdir : b.IsDirective
    · have hhash : c = 0x23 := by
        rw [Block.IsDirective, hbody] at hdir
        exact hdir
      have hblanks : newline ∉ skipBlanks t := not_mem_dropWhile ht
      have htail : b.directive = directiveOf (skipBlanks t) := by
        rw [Block.directive, hbody]
        rfl
      have hstep : ∀ s₁, s₁ = s.apply b.directive →
          emitMissingNewlines s₁ (b.space ++ b.body ++ b.rest) b.rest = step s b := by
        rintro s₁ rfl
        rw [emitMissingNewlines_spec, h.newlines, step, if_pos hdir, Block.pieces, if_pos hdir]
      rw [if_pos hhash, skipBlanks_append h.ends]
      by_cases hempty : skipBlanks t = []
      · have hend : skipBlanks t ++ b.rest = [] ∨ head (skipBlanks t ++ b.rest) = newline := by
          rw [hempty]
          rcases h.ends with hr | ⟨u, hr⟩ <;> rw [hr]
          · exact .inl rfl
          · exact .inr rfl
        rw [if_pos hend, hempty, List.nil_append, hstep s (by rw [htail, hempty]; rfl)]
        obtain ⟨r, hr, hok⟩ := @ih _ first _ hlt hbs
        refine ⟨r, hr, fun s' hs' => ⟨(hok s' hs').1, fun _ name value hdefine => ?_,
          (hok s' hs').2⟩⟩
        rw [htail, hempty] at hdefine
        cases hdefine
      · have hend : ¬(skipBlanks t ++ b.rest = [] ∨ head (skipBlanks t ++ b.rest) = newline) := by
          rintro (hnil | hhead)
          · exact hempty (List.append_eq_nil_iff.mp hnil).1
          · exact hempty (head_append_eq_newline hblanks hhead)
        rw [if_neg hend]
        cases hd : directive s first (skipBlanks t ++ b.rest) with
        | error e => exact ⟨_, rfl, fun s' hs' => by cases hs'⟩
        | ok p =>
          obtain ⟨s₁, src₁⟩ := p
          obtain ⟨hs₁, hsrc₁, hnew⟩ := directive_spec hblanks h.ends hd
          dsimp only
          rw [hsrc₁, hstep s₁ (by rw [hs₁, htail])]
          obtain ⟨r, hr, hok⟩ := @ih _ false _ hlt hbs
          exact ⟨r, hr, fun s' hs' => ⟨(hok s' hs').1, fun _ => htail ▸ hnew, (hok s' hs').2⟩⟩
    · have hhash : c ≠ 0x23 := by
        rw [Block.IsDirective, hbody] at hdir
        exact hdir
      rw [if_neg hhash]
      have htext := @textLine_spec s b.space b.body b.rest (c :: (t ++ b.rest)).length
        (by rw [hbody]; exact le_rfl) h.line h.ends (hb.uses hdir) (hb.length hdir)
      rw [← List.append_assoc] at htext
      have hsrc : c :: (t ++ b.rest) = b.body ++ b.rest := by rw [hbody]; rfl
      rw [hsrc] at htext ⊢
      rw [htext]
      dsimp only
      rw [slice_append]
      obtain ⟨⟨uses, last⟩, hr⟩ : ∃ r, cut (findMacro s) b.space [] b.body = r := ⟨_, rfl⟩
      have hstep : emitString (emitAll s (usePieces uses)) (last ++ b.rest) last.length =
          step s b := by
        rw [step, if_neg hdir, Block.pieces, if_neg hdir, hr, emitAll_append]
        by_cases hlast : last = []
        · rw [hlast, if_pos rfl]
          rfl
        · have hlength := hb.last hdir
          rw [hr] at hlength
          rw [if_neg hlast, emitString_slice _ _ hlast hlength]
          rfl
      rw [hr, hstep]
      obtain ⟨r, hr, hok⟩ := @ih _ false _ hlt hbs
      exact ⟨r, hr, fun s' hs' => ⟨(hok s' hs').1, fun hd => absurd hd hdir, (hok s' hs').2⟩⟩

end

end KernelModel.Glsl.Preprocessor
