import KernelModel.PreprocessorExpand

/-!
The locations that the preprocessor finds.

Every character that is copied from a line stands for a file and a line. The newline at the offset
of an entry is never counted, so the line found is one too small behind a file that begins with a
blank line or a directive; behind a line directive it is right if the directive stands directly
below a line that is not blank.
-/

namespace KernelModel.Glsl.Preprocessor

/-! ### The expected locations -/

/-- Characters, and the file and the line that each one is copied from. -/
abbrev Tagged := List (UInt8 × Option (ℕ × ℕ))

/-- The characters of a text that begins on a line of a file. -/
def tagText (file : ℕ) : ℕ → Text → Tagged
  | _, [] => []
  | line, c :: cs =>
    if c = newline then (c, none) :: tagText file (line + 1) cs
    else (c, some (file, line)) :: tagText file line cs

/-- The file and the line of the end of a block, where `loc` are those of the end of the block
before. The line of a line directive has the number that the directive gives. -/
def Block.location (b : Block) (loc : ℕ × ℕ) : ℕ × ℕ :=
  match if b.IsDirective then b.directive else .other with
  | .line number file => (file.getD loc.1, number)
  | _ => (loc.1, loc.2 + b.space.count newline)

/-- What is copied of a line of text. Behind a macro at its end that is the rest of the source. -/
def Block.copied (env : Env) (b : Block) : Text :=
  b.space ++ expand env [] b.body ++ if (cut env b.space [] b.body).2 = [] then b.rest else []

/-- The characters of a block. The newlines for a directive are not copied from a line. -/
def Block.tags (env : Env) (loc : ℕ × ℕ) (b : Block) : Tagged :=
  if b.IsDirective then List.replicate (b.space.count newline) (newline, none)
  else tagText loc.1 loc.2 (b.copied env)

def tags (env : Env) (loc : ℕ × ℕ) : List Block → Tagged
  | [] => [(newline, none)]
  | b :: bs => b.tags env loc ++ tags (b.env env) (b.location loc) bs

/-- All files and lines are numbers of 32 bits. -/
def Bounded (ts : Tagged) : Prop :=
  ∀ x ∈ ts, ∀ loc ∈ x.2, loc.1 < 2 ^ 32 ∧ loc.2 < 2 ^ 32

instance (ts : Tagged) : Decidable (Bounded ts) := inferInstanceAs (Decidable (∀ x ∈ ts, _))

/-- The characters of a state have the locations they are copied from. -/
structure Located (s : State) (ts : Tagged) : Prop where
  data : s.data = ts.map Prod.fst
  right : ∀ i loc, ts[i]?.bind Prod.snd = some loc → getLocation s i = some loc

/-! ### The condition -/

/-- Where the end of the last block is: at the offset of the last entry, whose line is the right
one; behind that offset, with the right line; behind it, with a wrong line; behind the rest of the
source, which was copied after a macro at the end of a line. -/
inductive Mode
  | start
  | good
  | lost
  | ended
  deriving DecidableEq

/-- What a block leads to. Text may stand in a good place only. -/
def Mode.next (env : Env) (m : Mode) (b : Block) : Option Mode :=
  if b.IsDirective then
    match b.directive with
    | .line _ _ =>
      if m = .ended then none
      else if b.space.count newline = 0 then some .start
      else if b.space.count newline = 1 then some .good
      else some .lost
    | _ => if m = .start ∧ b.space.count newline ≠ 0 then some .lost else some m
  else if (m = .good ∨ m = .start ∧ head b.space ≠ newline) ∧
      ∀ u ∈ (cut env b.space [] b.body).1, u.1 ≠ [] then
    some (if (cut env b.space [] b.body).2 = [] ∧ b.rest ≠ [] then .ended else .good)
  else none

/-- All text stands in good places. -/
def inPlace (env : Env) (m : Mode) : List Block → Bool
  | [] => true
  | b :: bs => (m.next env b).any fun m' => inPlace (b.env env) m' bs

/-! ### Entries -/

section

variable {s s' : State} {p : Text} {o : ℕ} {e : Line} {loc : ℕ × ℕ} {ts qs : Tagged}

lemma getLocation_last (he : s.lines.getLast? = some e) (hall : ∀ x ∈ s.lines, x.offset ≤ o)
    (ho : o < s.length) : getLocation s o = some (e.file,
      (e.line + ((s.data.take (o + 1)).drop (e.offset + 1)).count newline) % 2 ^ 32) := by
  have hne : s.lines ≠ [] := by
    intro hnil
    rw [hnil] at he
    cases he
  have htake : s.lines.tail.takeWhile (fun l => decide (l.offset ≤ o)) = s.lines.tail := by
    rw [List.takeWhile_eq_self_iff]
    exact fun x hx => decide_eq_true (hall x (List.mem_of_mem_tail hx))
  have hlast : s.lines[s.lines.tail.length]? = some e := by
    rw [List.length_tail, ← List.getLast?_eq_getElem?, he]
  rw [getLocation, if_neg (not_or.mpr ⟨hne, Nat.not_le.mpr ho⟩)]
  dsimp only
  rw [htake, hlast]
  rfl

lemma getLocation_append (hlines : s'.lines = s.lines) (hdata : s'.data = s.data ++ p)
    (ho : o < s.length) : getLocation s' o = getLocation s o := by
  have hlength : s'.length = s.length + p.length := by
    rw [State.length, hdata, List.length_append]
    rfl
  have hlt : ¬s.length ≤ o := Nat.not_le.mpr ho
  have hlt' : ¬s'.length ≤ o := by omega
  have htake : s'.data.take (o + 1) = s.data.take (o + 1) := by
    rw [hdata, List.take_append_of_le_length (by exact ho)]
  simp only [getLocation, hlines, htake, hlt, hlt']

lemma getLocation_emitLine (line file : ℕ) (h : getLocation s o = some loc) :
    getLocation (emitLine s line file) o = some loc := by
  rw [← h]
  rw [getLocation] at h
  split_ifs at h with hout
  obtain ⟨hne, ho⟩ := not_or.mp hout
  have hout' : ¬((emitLine s line file).lines = [] ∨ (emitLine s line file).length ≤ o) := by
    rintro (hnil | hle)
    · exact List.append_ne_nil_of_right_ne_nil _ (List.cons_ne_nil _ _) hnil
    · exact ho hle
  have htail : (emitLine s line file).lines.tail =
      s.lines.tail ++ [⟨s.length, line % 2 ^ 32, file % 2 ^ 32⟩] := List.tail_append_of_ne_nil hne
  have htake : (s.lines.tail ++ [(⟨s.length, line % 2 ^ 32, file % 2 ^ 32⟩ : Line)]).takeWhile
      (fun l => decide (l.offset ≤ o)) = s.lines.tail.takeWhile fun l => decide (l.offset ≤ o) := by
    rw [List.takeWhile_append]
    split_ifs with hall
    · rw [List.takeWhile_cons_of_neg (by simpa using ho), List.append_nil]
      exact ((List.takeWhile_prefix _).eq_of_length hall).symm
    · rfl
  have hindex : (s.lines.tail.takeWhile fun l => decide (l.offset ≤ o)).length <
      s.lines.length := by
    have hle := (List.takeWhile_prefix (fun l : Line => decide (l.offset ≤ o))
      (l := s.lines.tail)).length_le
    have hpos := List.length_pos_iff.mpr hne
    rw [List.length_tail] at hle
    omega
  rw [getLocation, getLocation, if_neg hout, if_neg hout']
  dsimp only
  rw [htail, htake]
  congr 1
  exact List.getElem?_append_left hindex

/-- The entries lie in the data. -/
def State.Offsets (s : State) : Prop := ∀ e ∈ s.lines, e.offset ≤ s.length

lemma State.Offsets.of_append (hs : s.Offsets) (hlines : s'.lines = s.lines)
    (hdata : s'.data = s.data ++ p) : s'.Offsets := by
  intro e he
  rw [hlines] at he
  have hle := hs e he
  rw [State.length, hdata, List.length_append]
  exact Nat.le_add_right_of_le hle

lemma State.Offsets.emitLine (hs : s.Offsets) (line file : ℕ) :
    (Preprocessor.emitLine s line file).Offsets := by
  intro e he
  rcases List.mem_append.mp he with he | he
  · exact hs e he
  · obtain rfl := List.mem_singleton.mp he
    exact le_rfl

lemma Located.of_append (h : Located s ts) (hlines : s'.lines = s.lines)
    (hdata : s'.data = s.data ++ qs.map Prod.fst)
    (hnew : ∀ j loc, qs[j]?.bind Prod.snd = some loc → getLocation s' (s.length + j) = some loc) :
    Located s' (ts ++ qs) where
  data := by rw [hdata, h.data, List.map_append]
  right := by
    intro i loc hi
    have hlength : s.length = ts.length := by rw [State.length, h.data, List.length_map]
    rcases Nat.lt_or_ge i ts.length with hlt | hge
    · rw [List.getElem?_append_left hlt] at hi
      rw [getLocation_append hlines hdata (by omega)]
      exact h.right i loc hi
    · rw [List.getElem?_append_right hge] at hi
      have := hnew (i - ts.length) loc hi
      rwa [hlength, Nat.add_sub_cancel' hge] at this

lemma Located.emitLine (h : Located s ts) (line file : ℕ) :
    Located (Preprocessor.emitLine s line file) ts where
  data := h.data
  right := fun i loc hi => getLocation_emitLine line file (h.right i loc hi)

end

/-! ### Tags -/

section

variable {env : Env} {file line j : ℕ} {p seg word l : Text} {loc : ℕ × ℕ} {b : Block}

lemma tagText_fst (file line : ℕ) (p : Text) : (tagText file line p).map Prod.fst = p := by
  induction p generalizing line with
  | nil => rfl
  | cons c p ih =>
    rw [tagText]
    split_ifs
    · exact congrArg (c :: ·) (ih (line + 1))
    · exact congrArg (c :: ·) (ih line)

lemma tagText_get (h : (tagText file line p)[j]?.bind Prod.snd = some loc) :
    ∃ c, p[j]? = some c ∧ c ≠ newline ∧ loc = (file, line + (p.take j).count newline) := by
  induction p generalizing line j with
  | nil => cases h
  | cons c p ih =>
    rw [tagText] at h
    split_ifs at h with hc
    · cases j with
      | zero => cases h
      | succ j =>
        obtain ⟨d, hd, hne, rfl⟩ := ih h
        refine ⟨d, hd, hne, ?_⟩
        rw [List.take_succ_cons, hc, List.count_cons_self]
        ext
        · rfl
        · dsimp only
          omega
    · cases j with
      | zero =>
        refine ⟨c, rfl, hc, ?_⟩
        cases h
        rfl
      | succ j =>
        obtain ⟨d, hd, hne, rfl⟩ := ih h
        refine ⟨d, hd, hne, ?_⟩
        rw [List.take_succ_cons, List.count_cons_of_ne hc]

lemma replicate_get {k : ℕ} {c : UInt8} {o : Option (ℕ × ℕ)}
    (h : (List.replicate k (c, o))[j]?.bind Prod.snd = some loc) : o = some loc := by
  rw [List.getElem?_replicate] at h
  split_ifs at h
  · exact h
  · cases h

lemma cut_of_uses_nil (h : (cut env seg word l).1 = []) :
    (cut env seg word l).2 = seg ++ word ++ l := by
  induction l generalizing seg word with
  | nil =>
    rw [cut] at h ⊢
    split at h
    · cases h
    · rename_i hnone
      rw [List.append_nil]
  | cons c l ih =>
    rw [cut] at h ⊢
    split_ifs at h ⊢ with hword
    · rw [ih h, hword]
      simp
    · rw [ih h, hword]
      simp
    · rw [ih h]
      simp
    · cases hvalue : env word with
      | none =>
        rw [hvalue] at h
        dsimp only at h ⊢
        rw [ih h]
        simp
      | some v =>
        rw [hvalue] at h
        cases h

lemma expand_ne_nil (hb : b.Valid) (huses : ∀ u ∈ (cut env b.space [] b.body).1, u.1 ≠ []) :
    b.space ++ expand env [] b.body ≠ [] := by
  rw [← cut_flatten]
  cases hcut : (cut env b.space [] b.body).1 with
  | nil =>
    obtain ⟨c, t, hbody, -⟩ := hb.body
    rw [cut_of_uses_nil hcut, hbody]
    simp
  | cons u us =>
    rw [hcut] at huses
    intro hnil
    rw [usePieces, List.flatMap_cons, List.flatten_append] at hnil
    have hu := huses u List.mem_cons_self
    simp only [List.append_eq_nil_iff, List.flatten_cons] at hnil
    exact hu hnil.1.1.1

/-- The text that is copied does not begin with a newline, unless its line does. -/
lemma copied_head (hb : b.Valid) (henv : ∀ name v, env name = some v → newline ∉ v)
    (huses : ∀ u ∈ (cut env b.space [] b.body).1, u.1 ≠ []) (hspace : head b.space ≠ newline) :
    ∃ c t, b.copied env = c :: t ∧ c ≠ newline := by
  have hne := expand_ne_nil hb huses
  have hline := expand_line henv List.not_mem_nil hb.line
  rw [Block.copied]
  cases hs : b.space with
  | cons c t =>
    rw [hs] at hspace
    exact ⟨c, _, rfl, hspace⟩
  | nil =>
    rw [hs] at hne
    cases he : expand env [] b.body with
    | nil => exact absurd he hne
    | cons c t =>
      rw [he, List.mem_cons, not_or] at hline
      exact ⟨c, _, rfl, fun h => hline.1 h.symm⟩

end

/-! ### Places -/

/-- The last entry gives the right line at the end of the data. -/
def Counts (s : State) (e : Line) (loc : ℕ × ℕ) : Prop :=
  (e.line + (s.data.drop (e.offset + 1)).count newline) % 2 ^ 32 = loc.2 % 2 ^ 32

/-- What a place means for the last entry. -/
def Mode.Holds (m : Mode) (s : State) (loc : ℕ × ℕ) : Prop :=
  ∃ e, s.lines.getLast? = some e ∧ e.file = loc.1 % 2 ^ 32 ∧
    match m with
    | .start => e.offset = s.length ∧ Counts s e loc
    | .good => e.offset < s.length ∧ Counts s e loc
    | _ => True

section

variable {s s' : State} {src p q : Text} {loc : ℕ × ℕ} {m m' : Mode} {b : Block} {bs : List Block}
  {ts : Tagged} {e : Line} {j k : ℕ}

/-- Newlines are counted behind the offset of an entry only. -/
def Counted (s : State) (e : Line) (p : Text) : Prop :=
  e.offset < s.length ∨ e.offset = s.length ∧ ∃ c t, p = c :: t ∧ c ≠ newline

lemma count_behind (h : Counted s e q) : ((s.data ++ q).drop (e.offset + 1)).count newline =
    (s.data.drop (e.offset + 1)).count newline + q.count newline := by
  rcases h with hlt | ⟨heq, c, t, rfl, hc⟩
  · rw [List.drop_append_of_le_length (by exact hlt), List.count_append]
  · rw [heq, State.length, List.drop_append, List.drop_of_length_le (Nat.le_succ _),
      Nat.add_sub_cancel_left, List.nil_append, List.drop_one, List.tail_cons,
      List.count_cons_of_ne hc, List.count_nil, Nat.zero_add]

lemma Counts.of_append (h : Counts s e loc) (hcounted : Counted s e p)
    (hdata : s'.data = s.data ++ p) : Counts s' e (loc.1, loc.2 + p.count newline) := by
  rw [Counts, hdata, count_behind hcounted]
  rw [Counts] at h
  dsimp only
  omega

/-- **The characters of a text** in a good place have the right locations. -/
lemma text_located (hs : s.Offsets) (hlines : s'.lines = s.lines) (hdata : s'.data = s.data ++ p)
    (he : s.lines.getLast? = some e) (hfile : e.file = loc.1 % 2 ^ 32) (hcounts : Counts s e loc)
    (hcounted : Counted s e p) (hbound : Bounded (tagText loc.1 loc.2 p)) {l : ℕ × ℕ}
    (hj : (tagText loc.1 loc.2 p)[j]?.bind Prod.snd = some l) :
    getLocation s' (s.length + j) = some l := by
  obtain ⟨hfileBound, hlineBound⟩ : l.1 < 2 ^ 32 ∧ l.2 < 2 ^ 32 := by
    obtain ⟨x, hx, hl⟩ := Option.bind_eq_some_iff.mp hj
    exact hbound x (List.mem_of_getElem? hx) l hl
  obtain ⟨c, hc, hne, rfl⟩ := tagText_get hj
  have hjlt : j < p.length := (List.getElem?_eq_some_iff.mp hc).1
  have hlength : s'.length = s.length + p.length := by
    rw [State.length, hdata, List.length_append]
    rfl
  have hnext : p.take (j + 1) = p.take j ++ [c] := by
    rw [List.take_add_one, hc]
    rfl
  have hcount : (p.take (j + 1)).count newline = (p.take j).count newline := by
    rw [hnext, List.count_append, List.count_eq_zero_of_not_mem (a := newline) (l := [c]),
      Nat.add_zero]
    rw [List.mem_singleton]
    exact fun h => hne h.symm
  have hcounted' : Counted s e (p.take (j + 1)) := by
    rcases hcounted with hlt | ⟨heq, d, t, rfl, hd⟩
    · exact .inl hlt
    · exact .inr ⟨heq, d, t.take j, rfl, hd⟩
  have htake : s'.data.take (s.length + j + 1) = s.data ++ p.take (j + 1) := by
    rw [hdata, Nat.add_assoc, State.length, List.take_length_add_append]
  rw [getLocation_last (hlines ▸ he)
    (fun x hx => (hs x (hlines ▸ hx)).trans (Nat.le_add_right _ j)) (by omega), htake,
    count_behind hcounted', hcount, hfile, Nat.mod_eq_of_lt hfileBound]
  rw [Counts] at hcounts
  dsimp only at hlineBound
  congr 2
  omega

lemma apply_lines (s : State) {d : Directive} (hd : ∀ number file, d ≠ .line number file) :
    (s.apply d).lines = s.lines := by
  cases d with
  | line number file => exact absurd rfl (hd number file)
  | undef name =>
    rw [State.apply, deleteMacro]
    split
    · split_ifs <;> rfl
    · rfl
  | _ => rfl

lemma Mode.Holds.newlines (h : m.Holds s loc) (hlines : s'.lines = s.lines)
    (hdata : s'.data = s.data ++ List.replicate k newline) :
    (if m = .start ∧ k ≠ 0 then Mode.lost else m).Holds s' (loc.1, loc.2 + k) := by
  obtain ⟨e, he, hfile, hplace⟩ := h
  refine ⟨e, hlines ▸ he, hfile, ?_⟩
  have hcount : (List.replicate k newline).count newline = k := List.count_replicate_self
  cases m with
  | start =>
    by_cases hk : k = 0
    · subst hk
      rw [List.replicate_zero, List.append_nil] at hdata
      rw [if_neg fun h => h.2 rfl]
      have hlength : s'.length = s.length := congrArg List.length hdata
      exact ⟨hlength ▸ hplace.1, by rw [Counts, hdata]; exact hplace.2⟩
    · rw [if_pos ⟨rfl, hk⟩]
      trivial
  | good =>
    rw [if_neg fun h => by cases h.1]
    have hcounts := hplace.2.of_append (.inl hplace.1) hdata
    rw [hcount] at hcounts
    refine ⟨hplace.1.trans_le ?_, hcounts⟩
    rw [State.length, State.length, hdata, List.length_append]
    exact Nat.le_add_right _ _
  | lost =>
    rw [if_neg fun h => by cases h.1]
    trivial
  | ended =>
    rw [if_neg fun h => by cases h.1]
    trivial

lemma holds_line {number file : ℕ} (hlines : s'.lines = (emitLine s number file).lines)
    (hdata : s'.data = s.data ++ List.replicate k newline) :
    (if k = 0 then Mode.start else if k = 1 then .good else .lost).Holds s' (file, number) := by
  have hlast : s'.lines.getLast? = some ⟨s.length, number % 2 ^ 32, file % 2 ^ 32⟩ := by
    rw [hlines, emitLine, List.getLast?_concat]
  have hlength : s'.length = s.length + k := by
    rw [State.length, hdata, List.length_append, List.length_replicate]
    rfl
  refine ⟨_, hlast, rfl, ?_⟩
  have hcounts : k ≤ 1 → Counts s' ⟨s.length, number % 2 ^ 32, file % 2 ^ 32⟩ (file, number) := by
    intro hk
    rw [Counts, List.drop_of_length_le (show s'.length ≤ s.length + 1 by omega), List.count_nil,
      Nat.add_zero, Nat.mod_mod]
  split_ifs with h₀ h₁
  · exact ⟨by rw [hlength, h₀]; rfl, hcounts (by omega)⟩
  · exact ⟨by rw [hlength, h₁]; exact Nat.lt_succ_self _, hcounts (by omega)⟩
  · trivial

lemma copied_eq (hdir : ¬b.IsDirective) (env : Env) : (b.pieces env).flatten = b.copied env :=
  pieces_text hdir

lemma newlines_fst (k : ℕ) :
    (List.replicate k (newline, (none : Option (ℕ × ℕ)))).map Prod.fst = List.replicate k newline :=
  List.map_replicate

lemma step_text (h : Ready s src (b :: bs)) (hs : s.Offsets) (hl : Located s ts)
    (hm : m.Holds s loc) (hdir : ¬b.IsDirective) (hnext : m.next (findMacro s) b = some m')
    (hbound : Bounded (b.tags (findMacro s) loc)) :
    (step s b).Offsets ∧ Located (step s b) (ts ++ b.tags (findMacro s) loc) ∧
      m'.Holds (step s b) (b.location loc) := by
  have hb := h.valid
  have henv : ∀ name v, findMacro s name = some v → newline ∉ v :=
    fun name v hv => (h.values.find hv).1
  have hdata : (step s b).data = s.data ++ b.copied (findMacro s) := by
    rw [step_data h, copied_eq hdir]
  have hlines : (step s b).lines = s.lines := by
    rw [Preprocessor.step, if_neg hdir, emitAll_lines]
  have hlocation : b.location loc = (loc.1, loc.2 + b.space.count newline) := by
    rw [Block.location, if_neg hdir]
  rw [Block.tags, if_neg hdir] at hbound ⊢
  rw [Mode.next, if_neg hdir, Option.ite_none_right_eq_some] at hnext
  obtain ⟨⟨hmode, huses⟩, hnext⟩ := hnext
  obtain ⟨e, he, hfile, hat⟩ := hm
  -- In a good place all newlines of the block are counted.
  have hcounted : Counted s e (b.copied (findMacro s)) ∧ Counts s e loc := by
    rcases hmode with rfl | ⟨rfl, hspace⟩
    · exact ⟨.inl hat.1, hat.2⟩
    · exact ⟨.inr ⟨hat.1, copied_head hb henv huses hspace⟩, hat.2⟩
  refine ⟨hs.of_append hlines hdata, hl.of_append hlines (by rw [tagText_fst]; exact hdata)
    fun j l hj => text_located hs hlines hdata he hfile hcounted.2 hcounted.1 hbound hj, ?_⟩
  obtain rfl := Option.some.inj hnext
  refine ⟨e, hlines ▸ he, by rw [hlocation, hfile], ?_⟩
  split_ifs with hend
  · trivial
  · have hcount : (b.copied (findMacro s)).count newline = b.space.count newline := by
      have hrest : (if (cut (findMacro s) b.space [] b.body).2 = [] then b.rest else []) = [] := by
        split_ifs with hlast
        · by_contra hrest
          exact hend ⟨hlast, hrest⟩
        · rfl
      rw [Block.copied, hrest, List.append_nil, List.count_append,
        List.count_eq_zero_of_not_mem (expand_line henv List.not_mem_nil hb.line), Nat.add_zero]
    have hpos : 0 < (b.copied (findMacro s)).length := by
      rw [List.length_pos_iff, Block.copied]
      exact List.append_ne_nil_of_left_ne_nil (expand_ne_nil hb huses) _
    have hlength : (step s b).length = s.length + (b.copied (findMacro s)).length := by
      rw [State.length, hdata, List.length_append]
      rfl
    have hle : e.offset ≤ s.length := hs e (List.mem_of_getLast? he)
    have hcounts := hcounted.2.of_append hcounted.1 hdata
    rw [hcount, ← hlocation] at hcounts
    exact ⟨by omega, hcounts⟩

/-- **A directive** leads to the place that its newlines lead to. -/
lemma step_directive (h : Ready s src (b :: bs)) (hs : s.Offsets) (hl : Located s ts)
    (hm : m.Holds s loc) (hdir : b.IsDirective) (hnext : m.next (findMacro s) b = some m') :
    (step s b).Offsets ∧ Located (step s b) (ts ++ b.tags (findMacro s) loc) ∧
      m'.Holds (step s b) (b.location loc) := by
  obtain ⟨k, hk⟩ : ∃ k, b.space.count newline = k := ⟨_, rfl⟩
  have hdata : (step s b).data = s.data ++ List.replicate k newline := by
    rw [step_data h, pieces_directive hdir, hk]
  have hlines : (step s b).lines = (s.apply b.directive).lines := by
    rw [Preprocessor.step, if_pos hdir, emitAll_lines]
  have hnone : ∀ {s' : State} (j : ℕ) (l : ℕ × ℕ),
      (List.replicate k (newline, (none : Option (ℕ × ℕ))))[j]?.bind Prod.snd = some l →
      getLocation s' (s.length + j) = some l := fun j l hj => by cases replicate_get hj
  rw [Block.tags, if_pos hdir, hk]
  rw [Mode.next, if_pos hdir, hk] at hnext
  rw [Block.location, if_pos hdir, hk]
  cases hd : b.directive with
  | line number file =>
    rw [hd] at hlines hnext
    have happly : (step s b).lines = (emitLine s number (file.getD s.file)).lines := hlines
    have hfile : (file.getD s.file) % 2 ^ 32 = (file.getD loc.1) % 2 ^ 32 := by
      obtain ⟨e, he, hfile, -⟩ := hm
      cases file with
      | some file => rfl
      | none => rw [Option.getD_none, Option.getD_none, State.file, he, Option.map_some,
          Option.getD_some, hfile, Nat.mod_mod]
    have hsame : emitLine s number (file.getD s.file) = emitLine s number (file.getD loc.1) := by
      rw [emitLine, hfile]
      rfl
    rw [hsame] at happly
    refine ⟨(hs.emitLine _ _).of_append happly hdata,
      (hl.emitLine _ _).of_append happly (by rw [newlines_fst]; exact hdata) hnone, ?_⟩
    have hholds := holds_line happly hdata
    dsimp only at hnext ⊢
    split_ifs at hnext hholds
    all_goals exact Option.some.inj hnext ▸ hholds
  | _ =>
    all_goals
      rw [hd] at hlines hnext
      have happly := hlines.trans (apply_lines s (by simp))
      refine ⟨hs.of_append happly hdata,
        hl.of_append happly (by rw [newlines_fst]; exact hdata) hnone, ?_⟩
      have hholds := hm.newlines happly hdata
      dsimp only at hnext ⊢
      split_ifs at hnext hholds
      all_goals exact Option.some.inj hnext ▸ hholds

lemma bounded_append {qs : Tagged} (h : Bounded (ts ++ qs)) : Bounded ts ∧ Bounded qs :=
  ⟨fun x hx => h x (List.mem_append_left qs hx), fun x hx => h x (List.mem_append_right ts hx)⟩

/-- **A source** whose text stands in good places has the right locations. -/
lemma run_located (h : Ready s src bs) (hs : s.Offsets) (hl : Located s ts) (hm : m.Holds s loc)
    (hplace : inPlace (findMacro s) m bs) (hbound : Bounded (tags (findMacro s) loc bs)) :
    (append (bs.foldl step s) [newline]).Offsets ∧
      Located (append (bs.foldl step s) [newline]) (ts ++ tags (findMacro s) loc bs) := by
  induction bs generalizing s src loc m ts with
  | nil =>
    have hdata : (append s [newline]).data = s.data ++ [newline] := append_data s (by decide)
    refine ⟨hs.of_append rfl hdata, hl.of_append rfl hdata fun j l hj => ?_⟩
    cases replicate_get (k := 1) hj
  | cons b bs ih =>
    rw [inPlace, Option.any_eq_true] at hplace
    obtain ⟨m', hnext, hplace⟩ := hplace
    rw [tags] at hbound ⊢
    obtain ⟨hboundBlock, hboundRest⟩ := bounded_append hbound
    obtain ⟨hs', hl', hm'⟩ : (step s b).Offsets ∧
        Located (step s b) (ts ++ b.tags (findMacro s) loc) ∧
        m'.Holds (step s b) (b.location loc) := by
      by_cases hdir : b.IsDirective
      · exact step_directive h hs hl hm hdir hnext
      · exact step_text h hs hl hm hdir hnext hboundBlock
    rw [← h.step_eq] at hplace hboundRest ⊢
    rw [List.foldl_cons, ← List.append_assoc]
    exact ih h.step hs' hl' hm' hplace hboundRest

end

/-! ### Files -/

/-- The files of a run, and their numbers. -/
abbrev Files := List (Source × ℕ)

/-- `glsl_preprocessor_add_file` of one file after the other. -/
def addFiles (s : State) : Files → Option (Except Error State)
  | [] => some (.ok s)
  | (src, index) :: files =>
    match addFile s src.text index with
    | some (.ok s') => addFiles s' files
    | r => r

def fileTags (env : Env) : Files → Tagged
  | [] => []
  | (src, index) :: files =>
    tags env (index, 1) (blocks src.text) ++ fileTags (allEnv env (blocks src.text)) files

def filesInPlace (env : Env) : Files → Bool
  | [] => true
  | (src, _) :: files =>
    inPlace env .start (blocks src.text) && filesInPlace (allEnv env (blocks src.text)) files

/-- What the files of a run are to be like. The offsets have 32 bits, too. -/
structure Findable (files : Files) : Prop where
  places : filesInPlace noMacros files
  bounded : Bounded (fileTags noMacros files)
  length : (fileTags noMacros files).length < 2 ^ 32

section

variable {s s' : State} {ts : Tagged} {src : Source} {index : ℕ}

/-- What holds between two files. -/
structure Between (s : State) (ts : Tagged) : Prop where
  values : s.GoodValues
  names : s.UniqueNames
  offsets : s.Offsets
  located : Located s ts

/-- **A file** whose text stands in good places has the right locations. -/
lemma addFile_located (h : Between s ts) (hadd : addFile s src.text index = some (.ok s'))
    (hplace : inPlace (findMacro s) .start (blocks src.text))
    (hbound : Bounded (tags (findMacro s) (index, 1) (blocks src.text))) :
    Between s' (ts ++ tags (findMacro s) (index, 1) (blocks src.text)) ∧
      findMacro s' = allEnv (findMacro s) (blocks src.text) := by
  have hsplit := blocks_split src.text
  have hstart : StartsPlain (emitLine s 1 index) src.text (blocks src.text) := by
    refine .inr fun b hb hdir => ?_
    obtain ⟨bs, hbs⟩ : ∃ bs, blocks src.text = b :: bs := by
      cases hblocks : blocks src.text with
      | nil =>
        rw [hblocks] at hb
        cases hb
      | cons b' bs =>
        rw [hblocks] at hb
        obtain rfl := Option.some.inj hb
        exact ⟨bs, rfl⟩
    rw [hbs, inPlace, Option.any_eq_true] at hplace
    obtain ⟨m', hnext, -⟩ := hplace
    rw [Mode.next, if_neg hdir, Option.ite_none_right_eq_some] at hnext
    exact hnext.1.2
  obtain ⟨r, hr, hok⟩ := @addFileLoop_spec (emitLine s 1 index) src.text (blocks src.text) true
    (src.text.length + 1) hsplit (Nat.lt_succ_self _) (allPlain hsplit src.length h.values hstart)
  obtain rfl : r = .ok s' := Option.some.inj (hr.symm.trans hadd)
  obtain ⟨rfl, hnew⟩ := hok s' rfl
  have hready : Ready (emitLine s 1 index) src.text (blocks src.text) :=
    ⟨hsplit, src.length, h.values, h.names, hnew⟩
  have hm : Mode.start.Holds (emitLine s 1 index) (index, 1) := by
    refine ⟨⟨s.length, 1, index % 2 ^ 32⟩, List.getLast?_concat, rfl, rfl, ?_⟩
    have hnil : s.data.drop (s.length + 1) = [] := List.drop_of_length_le (Nat.le_succ _)
    show (1 + (s.data.drop (s.length + 1)).count newline) % 2 ^ 32 = 1 % 2 ^ 32
    rw [hnil]
    rfl
  obtain ⟨hvalues, hnames, henv⟩ := run_macros hready
  obtain ⟨hoffsets, hlocated⟩ := run_located hready (h.offsets.emitLine 1 index)
    (h.located.emitLine 1 index) hm hplace hbound
  exact ⟨⟨hvalues, hnames, hoffsets, hlocated⟩, henv⟩

lemma addFiles_located {files : Files} (h : Between s ts)
    (hadd : addFiles s files = some (.ok s')) (hplace : filesInPlace (findMacro s) files)
    (hbound : Bounded (fileTags (findMacro s) files)) :
    Located s' (ts ++ fileTags (findMacro s) files) := by
  induction files generalizing s ts with
  | nil =>
    cases hadd
    rw [fileTags, List.append_nil]
    exact h.located
  | cons file files ih =>
    obtain ⟨src, index⟩ := file
    rw [filesInPlace, Bool.and_eq_true] at hplace
    rw [fileTags] at hbound ⊢
    obtain ⟨hboundFile, hboundRest⟩ := bounded_append hbound
    rw [addFiles] at hadd
    cases hfile : addFile s src.text index with
    | none =>
      rw [hfile] at hadd
      cases hadd
    | some r =>
      cases r with
      | error e =>
        rw [hfile] at hadd
        cases hadd
      | ok s₁ =>
        rw [hfile] at hadd
        obtain ⟨hbetween, henv⟩ := addFile_located h hfile hplace.1 hboundFile
        rw [← henv] at hplace hboundRest ⊢
        rw [← List.append_assoc]
        exact ih hbetween hadd hplace.2 hboundRest

end

/-- **Every character that is copied from a line has its location**, in every run of files whose
text stands in good places. -/
theorem located_of_findable {files : Files} {s : State}
    (h : addFiles stateInit files = some (.ok s)) (hfiles : Findable files) :
    Located s (fileTags noMacros files) := by
  have hinit : Between stateInit [] :=
    ⟨fun m hm => absurd hm List.not_mem_nil, List.nodup_nil,
      fun e he => absurd he List.not_mem_nil, ⟨rfl, fun i loc hi => by cases hi⟩⟩
  exact addFiles_located hinit h hfiles.places hfiles.bounded

/-- A file with an empty directive and two line directives. -/
def lineDirectives : Files :=
  [(⟨ascii "A\n#\nB\n#line 55\nC\n\nD\n#line 0 789\nE\n", by decide, by decide⟩, 123)]

theorem located_of_findable_lineDirectives : Located
    ⟨ascii "A\n\nB\n\nC\n\nD\n\nE\n", 256, [⟨0, 1, 123⟩, ⟨4, 55, 123⟩, ⟨10, 0, 789⟩], [], true⟩
    (fileTags noMacros lineDirectives) :=
  @located_of_findable lineDirectives _ (by decide +kernel)
    ⟨by decide +kernel, by decide +kernel, by decide +kernel⟩

/-- A file whose first line is a directive. -/
def versionFirst : Files := [(⟨ascii "#version 330\nvoid", by decide, by decide⟩, 0)]

/-- Behind a directive on the first line all lines are one too small. -/
theorem versionFirst_not_located : ¬∀ (files : Files) (s : State),
    addFiles stateInit files = some (.ok s) → Located s (fileTags noMacros files) := by
  intro h
  have hlocated := h versionFirst ⟨ascii "\nvoid\n", 256, [⟨0, 1, 0⟩], [], true⟩ (by decide +kernel)
  have hfound := hlocated.right 1 (0, 2) (by decide +kernel)
  exact absurd hfound (by decide +kernel)

end KernelModel.Glsl.Preprocessor
