import KernelModel.Lines
import KernelModel.PreprocessorMacros
import Mathlib.Data.List.DropRight

/-!
What the preprocessor makes of a source.

The output is to be the source without its directives, with its macros replaced and one newline at
its end. It is, unless a line ends with a macro, the last line ends in blanks, or a piece of the
text fills the buffer exactly.
-/

namespace KernelModel.Glsl.Preprocessor

open Lines (SameText ink)

/-- A text of C, whose length is counted in 32 bits. -/
structure Source where
  text : Text
  nonzero : 0 ∉ text
  length : text.length < 2 ^ 32

/-! ### The expected text -/

/-- A line with its macros replaced. `word` is the identifier that is being read. -/
def expand (env : Env) : Text → Text → Text
  | word, [] => if word = [] then [] else (env word).getD word
  | word, c :: cs =>
    if word = [] then
      if isIdentifierStart c then expand env [c] cs else c :: expand env [] cs
    else if isIdentifier c then expand env (word ++ [c]) cs
    else (env word).getD word ++ c :: expand env [] cs

/-- The line of a block, without the blanks at the end of the source. -/
def Block.line (b : Block) (bs : List Block) : Text :=
  if bs = [] then b.body.rdropWhile isWhitespace else b.body

/-- The source with blanks for the directives, its macros replaced and one newline at its end. -/
def expected (env : Env) : List Block → Text
  | [] => [newline]
  | b :: bs => b.space ++ (if b.IsDirective then [] else expand env [] (b.line bs)) ++
      expected (b.env env) bs

section

variable {env : Env} {seg word l w : Text}

lemma cut_flatten (env : Env) (seg word l : Text) :
    (usePieces (cut env seg word l).1).flatten ++ (cut env seg word l).2 =
      seg ++ expand env word l := by
  induction l generalizing seg word with
  | nil =>
    rw [cut, expand]
    by_cases hword : word = []
    · rw [if_pos hword, if_pos hword, hword]
      rfl
    · rw [if_neg hword, if_neg hword]
      cases env word with
      | none => rfl
      | some v => simp [usePieces]
  | cons c l ih =>
    rw [cut, expand]
    split_ifs with hword hstart hident
    · exact ih seg [c]
    · rw [ih, List.append_assoc, List.singleton_append]
    · exact ih seg (word ++ [c])
    · cases env word with
      | none =>
        dsimp only [Option.getD_none]
        rw [ih, List.append_assoc, List.append_assoc, List.singleton_append]
      | some v =>
        dsimp only [Option.getD_some]
        rw [usePieces, List.flatMap_cons, List.flatten_append, List.append_assoc, ← usePieces, ih]
        simp

lemma isIdentifier_of_whitespace {c : UInt8} (h : isWhitespace c) : isIdentifier c = false := by
  simp only [isWhitespace, Bool.or_eq_true, beq_iff_eq] at h
  rcases h with (((rfl | rfl) | rfl) | rfl) | rfl <;> rfl

lemma expand_append (hw : ∀ c ∈ w, isWhitespace c) :
    expand env word (l ++ w) = expand env word l ++ w := by
  have hblank : ∀ {w : Text}, (∀ c ∈ w, isWhitespace c) → expand env [] w = w := by
    intro w hw
    induction w with
    | nil => rfl
    | cons c w ih =>
      have hc := isIdentifier_of_whitespace (hw c List.mem_cons_self)
      rw [isIdentifier, Bool.or_eq_false_iff] at hc
      rw [expand, if_pos rfl, hc.1, if_neg Bool.false_ne_true,
        ih fun d hd => hw d (List.mem_cons_of_mem c hd)]
  induction l generalizing word with
  | nil =>
    cases w with
    | nil => rw [List.append_nil, List.append_nil]
    | cons c w =>
      have hc := isIdentifier_of_whitespace (hw c List.mem_cons_self)
      rw [List.nil_append]
      by_cases hword : word = []
      · rw [hword, hblank hw]
        rfl
      · rw [expand, expand, if_neg hword, if_neg hword, hc, if_neg Bool.false_ne_true,
          hblank fun d hd => hw d (List.mem_cons_of_mem c hd)]
  | cons c l ih =>
    rw [List.cons_append, expand, expand]
    split_ifs
    · exact ih
    · rw [ih, List.cons_append]
    · exact ih
    · rw [ih, List.append_assoc, List.cons_append]

end

/-! ### The buffer -/

/-- The capacity that belongs to a length. -/
def capacityAt (n : ℕ) : ℕ := if n = 0 then 0 else 256 * (n / 256 + 1)

/-- No piece ends where the buffer ends. -/
def Fits : ℕ → List Text → Prop
  | _, [] => True
  | n, p :: ps => (n + p.length ≠ capacityAt n ∧ n + p.length + stateBufferGrowthSize < 2 ^ 32) ∧
      Fits (n + p.length) ps

structure State.Sized (s : State) : Prop where
  capacity : s.capacity = capacityAt s.length
  length : s.length + stateBufferGrowthSize < 2 ^ 32

section

variable {s : State} {p : Text} {ps qs : List Text} {n : ℕ} {src : Text} {bs : List Block}

lemma append_length (hp : p.length < 2 ^ 32) : (append s p).length = s.length + p.length := by
  rw [State.length, append_data s hp, List.length_append]
  rfl

/-- The capacity that a piece of `k` characters behind `n` leads to. -/
lemma capacity_spec {n k cap : ℕ} (hn : n + 256 < 2 ^ 32) (hk : k < 2 ^ 32)
    (hcap : cap = if (capacityAt n + 2 ^ 32 - n) % 2 ^ 32 < k then
      (n + k + 256) % 2 ^ 32 / 256 * 256 else capacityAt n) :
    (n + k < cap ↔ n + k ≠ capacityAt n ∧ n + k + 256 < 2 ^ 32) ∧
      (n + k < cap → cap = capacityAt (n + k)) := by
  have hroom : (capacityAt n + 2 ^ 32 - n) % 2 ^ 32 = capacityAt n - n := by
    rw [capacityAt]
    split_ifs <;> omega
  rw [hroom] at hcap
  by_cases hgrow : capacityAt n - n < k
  · rw [if_pos hgrow] at hcap
    have hne : n + k ≠ capacityAt n := by omega
    have hpos : n + k ≠ 0 := by omega
    have hnext : capacityAt (n + k) = 256 * ((n + k) / 256 + 1) := if_neg hpos
    rw [hnext]
    by_cases hfit : n + k + 256 < 2 ^ 32
    · rw [Nat.mod_eq_of_lt hfit] at hcap
      exact ⟨⟨fun _ => ⟨hne, hfit⟩, fun _ => by omega⟩, fun _ => by omega⟩
    · have hwrap : (n + k + 256) % 2 ^ 32 = n + k + 256 - 2 ^ 32 := by omega
      rw [hwrap] at hcap
      exact ⟨⟨fun h => by omega, fun h => absurd h.2 hfit⟩, fun h => by omega⟩
  · rw [if_neg hgrow] at hcap
    rw [hcap]
    simp only [capacityAt] at hgrow ⊢
    split_ifs at hgrow ⊢ <;> omega

/-- **A piece** is written inside of the buffer, unless it ends where the buffer ends. -/
lemma append_inside (hs : s.inside → s.Sized) (hp : p.length < 2 ^ 32) :
    ((append s p).inside ↔ s.inside ∧ s.length + p.length ≠ capacityAt s.length ∧
      s.length + p.length + stateBufferGrowthSize < 2 ^ 32) ∧
    ((append s p).inside → (append s p).Sized) := by
  have hmod : p.length % 2 ^ 32 = p.length := Nat.mod_eq_of_lt hp
  cases hin : s.inside with
  | false => simp [append, emitString, hin]
  | true =>
    obtain ⟨hcap, hlen⟩ := hs hin
    have hcapacity : (append s p).capacity =
        if (capacityAt s.length + 2 ^ 32 - s.length) % 2 ^ 32 < p.length then
          (s.length + p.length + 256) % 2 ^ 32 / 256 * 256 else capacityAt s.length := by
      simp only [append, emitString, Nat.zero_mod, if_true, hmod, hcap, stateBufferGrowthSize]
    have hinside : (append s p).inside ↔ s.length + p.length < (append s p).capacity := by
      simp only [append, emitString, Nat.zero_mod, if_true, hmod, hin, Bool.true_and,
        decide_eq_true_iff]
    obtain ⟨hiff, heq⟩ := capacity_spec hlen hp hcapacity
    rw [hinside, hiff]
    refine ⟨by simp [stateBufferGrowthSize], fun h => ⟨?_, ?_⟩⟩
    · rw [append_length hp]
      exact heq (hiff.mpr h)
    · rw [append_length hp]
      exact h.2

lemma fits_append : Fits n (ps ++ qs) ↔ Fits n ps ∧ Fits (n + ps.flatten.length) qs := by
  induction ps generalizing n with
  | nil => exact ⟨fun h => ⟨trivial, h⟩, fun h => h.2⟩
  | cons p ps ih =>
    rw [List.cons_append, Fits, Fits, ih, List.flatten_cons, List.length_append, ← Nat.add_assoc]
    exact and_assoc.symm

/-- **The pieces** are written inside of the buffer, if they fit. -/
lemma emitAll_inside (hs : s.inside → s.Sized) (hps : ∀ p ∈ ps, p.length < 2 ^ 32) :
    ((emitAll s ps).inside ↔ s.inside ∧ Fits s.length ps) ∧
      ((emitAll s ps).inside → (emitAll s ps).Sized) := by
  induction ps generalizing s with
  | nil => exact ⟨(and_iff_left trivial).symm, hs⟩
  | cons p ps ih =>
    have hp := hps p List.mem_cons_self
    obtain ⟨hiff, hsized⟩ := append_inside hs hp
    obtain ⟨hrest, hrestSized⟩ := ih hsized fun q hq => hps q (List.mem_cons_of_mem p hq)
    rw [emitAll_cons]
    refine ⟨?_, hrestSized⟩
    rw [hrest, hiff, append_length hp, Fits, and_assoc]

lemma step_inside {b : Block} (h : Ready s src (b :: bs)) (hs : s.inside → s.Sized) :
    ((step s b).inside ↔ s.inside ∧ Fits s.length (b.pieces (findMacro s))) ∧
      ((step s b).inside → (step s b).Sized) := by
  have hsame : ∀ s₁ : State, s₁.data = s.data ∧ s₁.capacity = s.capacity ∧ s₁.inside = s.inside →
      ((emitAll s₁ (b.pieces (findMacro s))).inside ↔
        s.inside ∧ Fits s.length (b.pieces (findMacro s))) ∧
      ((emitAll s₁ (b.pieces (findMacro s))).inside →
        (emitAll s₁ (b.pieces (findMacro s))).Sized) := by
    rintro s₁ ⟨hdata, hcapacity, hinside⟩
    have hlength : s₁.length = s.length := congrArg List.length hdata
    rw [← hinside, ← hlength]
    refine emitAll_inside (fun hin => ?_) h.pieces_length
    obtain ⟨hcap, hlen⟩ := hs (hinside ▸ hin)
    exact ⟨by rw [hcapacity, hcap, hlength], by rw [hlength]; exact hlen⟩
  rw [Preprocessor.step]
  split_ifs
  · exact hsame _ (apply_data s b.directive)
  · exact hsame s ⟨rfl, rfl, rfl⟩

/-- **A source** is written inside of the buffer, if its pieces fit. -/
lemma run_inside (h : Ready s src bs) (hs : s.inside → s.Sized) :
    (append (bs.foldl step s) [newline]).inside ↔
      s.inside ∧ Fits s.length (allPieces (findMacro s) bs) := by
  induction bs generalizing s src with
  | nil => exact (@emitAll_inside s [[newline]] hs (by decide)).1
  | cons b bs ih =>
    obtain ⟨hiff, hsized⟩ := step_inside h hs
    have hlength : (step s b).length = s.length + (b.pieces (findMacro s)).flatten.length := by
      rw [State.length, step_data h, List.length_append]
      rfl
    rw [List.foldl_cons, ih h.step hsized, hiff, h.step_eq, hlength, allPieces, fits_append,
      and_assoc]

end

/-! ### The text -/

/-- No line of text ends with a macro, unless nothing follows it. -/
def NoneAtEnd : Env → List Block → Prop
  | _, [] => True
  | env, b :: bs => (b.IsDirective ∨ b.rest = [] ∨ (cut env b.space [] b.body).2 ≠ []) ∧
      NoneAtEnd (b.env env) bs

/-- The last line is a directive, does not end in blanks, or is blank as a whole. -/
def PlainEnd : Env → List Block → Prop
  | _, [] => True
  | env, b :: bs =>
    (bs = [] → b.IsDirective ∨ b.body.rdropWhile isWhitespace = b.body ∨
      ∀ c ∈ expand env [] b.body, isWhitespace c) ∧ PlainEnd (b.env env) bs

section

variable {env : Env} {s : State} {src word l t : Text} {b : Block} {bs : List Block}

lemma blank_of_whitespace {c : UInt8} (h : isWhitespace c) : c = newline ∨ isBlank c := by
  by_cases hc : c = newline
  · exact .inl hc
  · exact .inr (by rw [isBlank, h, Bool.and_true]; exact bne_iff_ne.mpr hc)

lemma whitespace_of_blank {c : UInt8} (h : isBlank c) : isWhitespace c := by
  rw [isBlank, Bool.and_eq_true] at h
  exact h.2

lemma ink_whitespace (h : ∀ c ∈ l, isWhitespace c) : ink newline isBlank l = l.count newline := by
  rw [(Lines.sameText_replicate fun c hc => blank_of_whitespace (h c hc)).ink_eq, ink,
    List.countP_replicate]
  simp

lemma pieces_directive (hdir : b.IsDirective) :
    (b.pieces env).flatten = List.replicate (b.space.count newline) newline := by
  rw [Block.pieces, if_pos hdir, List.flatten_replicate_singleton]

lemma pieces_text (hdir : ¬b.IsDirective) : (b.pieces env).flatten =
    b.space ++ expand env [] b.body ++
      if (cut env b.space [] b.body).2 = [] then b.rest else [] := by
  rw [Block.pieces, if_neg hdir, ← cut_flatten]
  dsimp only
  rw [List.flatten_append, List.flatten_singleton]
  split_ifs with hlast
  · rw [hlast, List.append_nil]
  · rw [List.append_nil]

lemma Block.Valid.line_eq (h : b.Valid) : ∃ w, (∀ c ∈ w, isBlank c) ∧ b.body = b.line bs ++ w ∧
    (bs ≠ [] → w = []) := by
  rw [Block.line]
  split_ifs with hbs
  · refine ⟨b.body.rtakeWhile isWhitespace, fun c hc => ?_, List.rdropWhile_append_rtakeWhile.symm,
      fun hne => absurd hbs hne⟩
    refine (blank_of_whitespace (List.mem_rtakeWhile_imp hc)).resolve_left ?_
    rintro rfl
    exact h.line ((List.rtakeWhile_suffix _ _).subset hc)
  · exact ⟨[], by simp, (List.append_nil _).symm, fun _ => rfl⟩

lemma Block.Valid.space_of_ends (h : b.Valid) (hends : Ends (b.space ++ b.body ++ b.rest)) :
    ∃ t, b.space = newline :: t := by
  obtain ⟨c, t, hbody, hc⟩ := h.body
  rw [hbody] at hends
  cases hspace : b.space with
  | nil =>
    rw [hspace] at hends
    rcases hends with hnil | ⟨u, hu⟩
    · cases hnil
    · obtain rfl := (List.cons.inj hu).1
      cases hc
  | cons d u =>
    rw [hspace] at hends
    rcases hends with hnil | ⟨v, hv⟩
    · cases hnil
    · obtain rfl := (List.cons.inj hv).1
      exact ⟨u, rfl⟩

lemma pieces_starts (hsplit : Split src bs) (hends : Ends src) :
    ∃ t, (allPieces env bs).flatten = newline :: t := by
  cases hsplit with
  | done => exact ⟨[], rfl⟩
  | @block b bs h hs =>
    obtain ⟨t, hspace⟩ := h.space_of_ends hends
    rw [allPieces, List.flatten_append]
    by_cases hdir : b.IsDirective
    · rw [pieces_directive hdir, hspace, List.count_cons_self, List.replicate_succ]
      exact ⟨_, rfl⟩
    · rw [pieces_text hdir, hspace]
      exact ⟨_, rfl⟩

lemma expected_starts (hsplit : Split src bs) (hends : Ends src) :
    ∃ t, expected env bs = newline :: t := by
  cases hsplit with
  | done => exact ⟨[], rfl⟩
  | @block b bs h hs =>
    obtain ⟨t, hspace⟩ := h.space_of_ends hends
    rw [expected, hspace]
    exact ⟨_, rfl⟩

/-- **What is emitted** is no less than what is expected, and more if a line ends with a macro. -/
lemma ink_expected (hsplit : Split src bs) :
    ink newline isBlank (expected env bs) ≤ ink newline isBlank (allPieces env bs).flatten ∧
    (¬NoneAtEnd env bs →
      ink newline isBlank (expected env bs) < ink newline isBlank (allPieces env bs).flatten) := by
  induction hsplit generalizing env with
  | done => exact ⟨le_rfl, fun h => absurd trivial h⟩
  | @block b bs h hs ih =>
    obtain ⟨hle, hlt⟩ := @ih (b.env env)
    rw [NoneAtEnd, expected, allPieces, List.flatten_append]
    by_cases hdir : b.IsDirective
    · have hink : ink newline isBlank (b.pieces env).flatten =
          ink newline isBlank (b.space ++ []) := by
        rw [pieces_directive hdir, List.append_nil, ink_whitespace h.space, ink_whitespace]
        · exact List.count_replicate_self
        · intro c hc
          rw [List.eq_of_mem_replicate hc]
          rfl
      rw [if_pos hdir, Lines.ink_append, Lines.ink_append (t := (b.pieces env).flatten), hink]
      refine ⟨Nat.add_le_add_left hle _, fun hnot => Nat.add_lt_add_left (hlt fun hn => ?_) _⟩
      exact hnot ⟨.inl hdir, hn⟩
    · obtain ⟨w, hw, hbody, -⟩ := @Block.Valid.line_eq b bs h
      have hline : ink newline isBlank (expand env [] b.body) =
          ink newline isBlank (expand env [] (b.line bs)) := by
        rw [hbody, expand_append fun c hc => whitespace_of_blank (hw c hc), Lines.ink_append,
          ink_whitespace fun c hc => whitespace_of_blank (hw c hc), List.count_eq_zero.mpr]
        · rfl
        · intro hmem
          cases hw _ hmem
      rw [if_neg hdir, pieces_text hdir]
      simp only [Lines.ink_append, hline]
      refine ⟨by omega, fun hnot => ?_⟩
      by_cases hn : NoneAtEnd (b.env env) bs
      · -- The line ends with a macro, and what follows it begins with a newline.
        have hlast : (cut env b.space [] b.body).2 = [] := by
          by_contra hne
          exact hnot ⟨.inr (.inr hne), hn⟩
        have hrest : 0 < ink newline isBlank b.rest := by
          rcases h.ends with hnil | ⟨t, ht⟩
          · exact absurd ⟨.inr (.inl hnil), hn⟩ hnot
          · rw [ht, ink, List.countP_cons_of_pos (by simp)]
            exact Nat.succ_pos _
        rw [if_pos hlast]
        omega
      · have := hlt hn
        omega

lemma expand_line (henv : ∀ name v, env name = some v → newline ∉ v) (hword : newline ∉ word)
    (hl : newline ∉ l) : newline ∉ expand env word l := by
  have hvalue : ∀ {word : Text}, newline ∉ word → newline ∉ (env word).getD word := by
    intro word hword
    cases h : env word with
    | none => exact hword
    | some v => exact henv word v h
  induction l generalizing word with
  | nil =>
    rw [expand]
    split_ifs
    · exact List.not_mem_nil
    · exact hvalue hword
  | cons c l ih =>
    rw [List.mem_cons, not_or] at hl
    rw [expand]
    split_ifs
    · exact ih (by rw [List.mem_singleton]; exact hl.1) hl.2
    · rw [List.mem_cons, not_or]
      exact ⟨hl.1, ih List.not_mem_nil hl.2⟩
    · refine ih ?_ hl.2
      rw [List.mem_append, List.mem_singleton, not_or]
      exact ⟨hword, hl.1⟩
    · rw [List.mem_append, List.mem_cons, not_or, not_or]
      exact ⟨hvalue hword, hl.1, ih List.not_mem_nil hl.2⟩

lemma sameText_last {space y w : Text} (hspace : ∀ c ∈ space, isWhitespace c) (hy : newline ∉ y)
    (hw : ∀ c ∈ w, isBlank c) :
    SameText newline isBlank (space ++ (y ++ w) ++ [newline]) (space ++ y ++ [newline]) ↔
      w = [] ∨ ∀ c ∈ y ++ w, isWhitespace c := by
  have hnl : newline ∉ w := fun hmem => by cases hw _ hmem
  constructor
  · intro h
    have hlast := SameText.of_append h
    rw [← List.append_assoc] at hlast
    refine (Lines.blank_of_sameText hy hnl hlast).imp_right fun hblank c hc => ?_
    exact whitespace_of_blank ((List.mem_append.mp hc).elim (hblank c) (hw c))
  · rintro (rfl | hblank)
    · rw [List.append_nil]
      exact SameText.rfl
    · have hall : ∀ c ∈ space ++ (y ++ w), c = newline ∨ isBlank c := fun c hc =>
        blank_of_whitespace ((List.mem_append.mp hc).elim (hspace c) (hblank c))
      have hcount : (space ++ (y ++ w)).count newline = (space ++ y).count newline := by
        rw [← List.append_assoc, List.count_append, List.count_eq_zero_of_not_mem hnl,
          Nat.add_zero]
      refine SameText.append ?_ SameText.rfl
      refine (Lines.sameText_replicate hall).trans (hcount ▸ (Lines.sameText_replicate ?_).symm)
      refine fun c hc => hall c ?_
      rw [← List.append_assoc]
      exact List.mem_append_left w hc

/-- **The text**, if no line ends with a macro, is the expected one if the end is plain. -/
lemma sameText_iff (h : Ready s src bs) (hnone : NoneAtEnd (findMacro s) bs) :
    SameText newline isBlank (allPieces (findMacro s) bs).flatten (expected (findMacro s) bs) ↔
      PlainEnd (findMacro s) bs := by
  induction bs generalizing s src with
  | nil => exact ⟨fun _ => trivial, fun _ => SameText.rfl⟩
  | cons b bs ih =>
    have hb := h.valid
    obtain ⟨hblock, hnone⟩ := hnone
    rw [← h.step_eq] at hnone
    have hrec := ih h.step hnone
    rw [expected, allPieces, PlainEnd, List.flatten_append, ← h.step_eq]
    by_cases hdir : b.IsDirective
    · obtain ⟨t, ht⟩ := @pieces_starts (findMacro (step s b)) _ _ h.step.split hb.ends
      obtain ⟨u, hu⟩ := @expected_starts (findMacro (step s b)) _ _ h.step.split hb.ends
      have hspace := (Lines.sameText_replicate fun c hc => blank_of_whitespace (hb.space c hc)).symm
      rw [ht, hu, SameText.cons_iff] at hrec
      rw [if_pos hdir, pieces_directive hdir, List.append_nil, ht, hu, hspace.append_iff, hrec]
      exact ⟨fun hplain => ⟨fun _ => .inl hdir, hplain⟩, And.right⟩
    · have hempty : (if (cut (findMacro s) b.space [] b.body).2 = [] then b.rest else []) = [] := by
        split_ifs with hlast
        · exact (hblock.resolve_left hdir).resolve_right (not_not_intro hlast)
        · rfl
      rw [if_neg hdir, pieces_text hdir, hempty, List.append_nil]
      obtain ⟨w, hw, hbody, hnil⟩ := @Block.Valid.line_eq b bs hb
      by_cases hbs : bs = []
      · subst hbs
        have hexpand := @expand_append (findMacro s) [] (b.line []) w
          fun c hc => whitespace_of_blank (hw c hc)
        have hline : newline ∉ expand (findMacro s) [] (b.line []) := by
          refine expand_line (fun name v hv => (h.values.find hv).1) List.not_mem_nil fun hmem => ?_
          exact hb.line (hbody ▸ List.mem_append_left w hmem)
        have hself : b.body.rdropWhile isWhitespace = b.body ↔ w = [] := by
          rw [Block.line, if_pos rfl] at hbody
          constructor
          · intro heq
            rw [heq] at hbody
            exact List.append_right_eq_self.mp hbody.symm
          · rintro rfl
            rw [List.append_nil] at hbody
            exact hbody.symm
        rw [hself]
        have hlast := sameText_last hb.space hline hw
        rw [← hexpand, ← hbody] at hlast
        rw [allPieces, expected, List.flatten_singleton, hlast]
        exact ⟨fun hplain => ⟨fun _ => .inr hplain, trivial⟩,
          fun hplain => (hplain.1 rfl).resolve_left hdir⟩
      · obtain ⟨t, ht⟩ := @pieces_starts (findMacro (step s b)) _ _ h.step.split hb.ends
        obtain ⟨u, hu⟩ := @expected_starts (findMacro (step s b)) _ _ h.step.split hb.ends
        rw [hnil hbs, List.append_nil] at hbody
        rw [ht, hu, SameText.cons_iff] at hrec
        rw [← hbody, ht, hu, SameText.rfl.append_iff, hrec]
        exact ⟨fun hplain => ⟨fun hnot => absurd hnot hbs, hplain⟩, And.right⟩

end

/-! ### Sources -/

/-- No macro is defined before the first file. -/
def noMacros : Env := fun _ => none

/-- The output of a source is the expected text, and no write is outside of the buffer. -/
def Exact (src : Source) (s : State) : Prop :=
  SameText newline isBlank s.data (expected noMacros (blocks src.text)) ∧ s.inside

/-- What keeps the output of a source from what goes wrong. -/
structure Regular (src : Source) : Prop where
  noneAtEnd : NoneAtEnd noMacros (blocks src.text)
  plainEnd : PlainEnd noMacros (blocks src.text)
  fits : Fits 0 (allPieces noMacros (blocks src.text))

lemma cut_noMacros (seg word l : Text) : (cut noMacros seg word l).1 = [] := by
  induction l generalizing seg word with
  | nil =>
    rw [cut]
    split
    · rename_i hv
      split_ifs at hv
      cases hv
    · rfl
  | cons c l ih =>
    rw [cut]
    split_ifs
    · exact ih _ _
    · exact ih _ _
    · exact ih _ _
    · exact ih _ _

lemma allPlain_first (src : Source) (index : ℕ) :
    AllPlain (emitLine stateInit 1 index) (blocks src.text) := by
  refine allPlain (blocks_split src.text) src.length (fun m hm => absurd hm List.not_mem_nil)
    (.inr fun b _ _ u hu => ?_)
  rw [show findMacro (emitLine stateInit 1 index) = noMacros from rfl, cut_noMacros] at hu
  exact absurd hu List.not_mem_nil

/-- **A file is read to its end**, or to an error. -/
theorem addFile_total (src : Source) (index : ℕ) :
    ∃ r, addFile stateInit src.text index = some r := by
  obtain ⟨r, hr, -⟩ := @addFileLoop_spec (emitLine stateInit 1 index) src.text (blocks src.text)
    true (src.text.length + 1) (blocks_split src.text) (Nat.lt_succ_self _)
      (allPlain_first src index)
  exact ⟨r, hr⟩

/-- **What the preprocessor makes of a source that it accepts** is right if and only if no line of
text with something behind it ends with a macro, the end of the source is plain, and no piece ends
where the buffer ends. -/
theorem exact_iff_regular {src : Source} {index : ℕ} {s : State}
    (h : addFile stateInit src.text index = some (.ok s)) : Exact src s ↔ Regular src := by
  obtain ⟨r, hr, hok⟩ := @addFileLoop_spec (emitLine stateInit 1 index) src.text (blocks src.text)
    true (src.text.length + 1) (blocks_split src.text) (Nat.lt_succ_self _)
      (allPlain_first src index)
  obtain rfl : r = .ok s := Option.some.inj (hr.symm.trans h)
  obtain ⟨rfl, hnew⟩ := hok s rfl
  have hready : Ready (emitLine stateInit 1 index) src.text (blocks src.text) :=
    ⟨blocks_split src.text, src.length, fun m hm => absurd hm List.not_mem_nil, List.nodup_nil,
      hnew⟩
  have henv : findMacro (emitLine stateInit 1 index) = noMacros := rfl
  have hdata : (emitLine stateInit 1 index).data = [] := rfl
  have hinside : (emitLine stateInit 1 index).inside := rfl
  rw [Exact, run_data hready, run_inside hready fun _ =>
    ⟨rfl, (by norm_num : 0 + 256 < 2 ^ 32)⟩, henv,
    hdata, List.nil_append, show (emitLine stateInit 1 index).length = 0 from rfl]
  constructor
  · rintro ⟨hsame, -, hfits⟩
    have hnone : NoneAtEnd noMacros (blocks src.text) := by
      by_contra hnot
      have hlt := (@ink_expected noMacros _ _ hready.split).2 hnot
      exact absurd hsame.ink_eq (Nat.ne_of_gt hlt)
    exact ⟨hnone, (sameText_iff hready hnone).mp hsame, hfits⟩
  · rintro ⟨hnone, hplain, hfits⟩
    exact ⟨(sameText_iff hready hnone).mpr hplain, hinside, hfits⟩

/-- A source of two lines without macros is copied. -/
theorem exact_iff_regular_plain : Exact ⟨ascii "a b\n c\n\n", by decide, by decide⟩
    ⟨ascii "a b\n c\n", 256, [⟨0, 1, 7⟩], [], true⟩ ↔
      Regular ⟨ascii "a b\n c\n\n", by decide, by decide⟩ :=
  @exact_iff_regular ⟨ascii "a b\n c\n\n", by decide, by decide⟩ 7 _ (by decide +kernel)

/-- A line that ends with a macro. -/
def macroAtEnd : Source := ⟨ascii "#define N 4\nint a=N\n;", by decide, by decide⟩

/-- The line behind a macro at the end of a line is emitted twice. -/
theorem macroAtEnd_not_exact : ¬∀ (src : Source) (index : ℕ) (s : State),
    addFile stateInit src.text index = some (.ok s) → Exact src s := by
  intro h
  have hexact := h macroAtEnd 0
    ⟨ascii "\nint a=4\n;\n;\n", 256, [⟨0, 1, 0⟩], [⟨ascii "N", ascii "4"⟩], true⟩
      (by decide +kernel)
  exact absurd hexact.1 (by decide +kernel)

end KernelModel.Glsl.Preprocessor
