import Mathlib.Data.List.Destutter
import KernelModel.Readline

/-!
The line editor stays within its blocks, remembers the lines that it returned, and does not notice
how the characters are cut into calls.

A step of the editor is described once: it keeps the invariant, and either it leaves the history as
it is or it returns a line and remembers it. Reading the characters one call at a time is then the
same as reading them in any calls.
-/

namespace KernelModel.Readline

variable {maxLine maxHistory : ℕ} {s t : State}

/-! ### The invariant -/

structure History.Fits (maxLine maxHistory : ℕ) (h : History) : Prop where
  maxLength : h.maxLength = maxHistory
  size : h.data.size = maxHistory
  length_le : h.length ≤ maxHistory
  entry : ∀ i < h.length, 0 ∉ h.data.data i ∧ (h.data.data i).length ≤ maxLine

/-- The line and its newline fit into the block, and the cursor is in the line. -/
structure Inv (maxLine maxHistory : ℕ) (s : State) : Prop where
  maxLineLength : s.maxLineLength = maxLine
  size : s.line.size = maxLine + 2
  cursor_le : s.cursor ≤ s.lineLength
  lineLength_le : s.lineLength ≤ maxLine + if s.event = .line then 1 else 0
  line_ne : ∀ i < s.lineLength, s.line.data i ≠ 0
  history : s.history.Fits maxLine maxHistory
  index_le : s.historyIndex ≤ s.history.length - 1
  sequence : s.escapeSequence.data.size = maxEscapeSequenceLength + 1

/-- The entries, newest first. -/
def History.entries (h : History) : List (List UInt8) := h.data.text h.length

/-- A step that neither ends a line nor touches the history. -/
structure Edits (maxLine maxHistory : ℕ) (s t : State) : Prop where
  inv : Inv maxLine maxHistory t
  event : t.event = s.event
  history : t.history = s.history

lemma Edits.refl (hi : Inv maxLine maxHistory s) : Edits maxLine maxHistory s s := ⟨hi, rfl, rfl⟩

@[simp] lemma line_redrawLine : (redrawLine s).line = s.line := by
  rw [redrawLine]
  split_ifs <;> rfl

@[simp] lemma lineLength_redrawLine : (redrawLine s).lineLength = s.lineLength := by
  rw [redrawLine]
  split_ifs <;> rfl

lemma Edits.redraw (h : Edits maxLine maxHistory s t) :
    Edits maxLine maxHistory s (redrawLine t) := by
  rw [redrawLine]
  split_ifs
  · exact ⟨{ h.inv with }, h.event, h.history⟩
  · exact h

lemma Inv.lt_size (hi : Inv maxLine maxHistory s) : s.lineLength < s.line.size := by
  have hle := hi.lineLength_le
  have hsize := hi.size
  split_ifs at hle <;> omega

lemma Inv.le_maxLine (hi : Inv maxLine maxHistory s) (he : s.event = .none) :
    s.lineLength ≤ maxLine := by
  have hle := hi.lineLength_le
  rw [he] at hle
  simpa using hle

/-! ### The line -/

section

variable (hi : Inv maxLine maxHistory s)
include hi

lemma emitCharacter_edits {c : UInt8} (hc : c ≠ 0) :
    ∃ t, emitCharacter s c = some t ∧ Edits maxLine maxHistory s t := by
  have hsize := hi.size
  have hcursor := hi.cursor_le
  rw [emitCharacter]
  by_cases hfull : s.lineLength ≥ s.maxLineLength
  · exact ⟨s, if_pos hfull, .refl hi⟩
  · have hroom : s.lineLength < maxLine := by
      rw [← hi.maxLineLength]
      omega
    rw [if_neg hfull, Block.shiftUp_eq _ (by omega)]
    simp only [Option.bind_eq_bind, Option.bind_some]
    rw [Block.write_eq (by simp only; omega), Option.bind_some]
    refine ⟨_, rfl, { hi with
      size := hsize
      cursor_le := by simp only; omega
      lineLength_le := by simp only; omega
      line_ne := fun i hlt => ?_ }, rfl, rfl⟩
    simp only at hlt ⊢
    by_cases hat : i = s.cursor
    · rw [hat, Block.data_set_self]
      exact hc
    · rw [Block.data_set_of_ne hat]
      simp only
      split_ifs with hmoved
      · exact hi.line_ne _ (by omega)
      · exact hi.line_ne _ (by omega)

lemma removeCharacter_edits (hcursor : s.cursor < s.lineLength) :
    ∃ t, removeCharacter s = some t ∧ Edits maxLine maxHistory s t := by
  have hsize := hi.size
  have hfits := hi.lt_size
  have hle := hi.lineLength_le
  rw [removeCharacter, Block.shiftDown_eq (by omega)]
  refine ⟨_, rfl, { hi with
    size := hsize
    cursor_le := by simp only; omega
    lineLength_le := by simp only; omega
    line_ne := fun i hlt => ?_ }, rfl, rfl⟩
  simp only at hlt ⊢
  split_ifs with hmoved
  · exact hi.line_ne _ (by omega)
  · exact hi.line_ne _ (by omega)

lemma cursor_edits {cursor : ℕ} (hcursor : cursor ≤ s.lineLength) :
    Edits maxLine maxHistory s { s with cursor } :=
  ⟨{ hi with cursor_le := hcursor }, rfl, rfl⟩

lemma sequence_edits (sequence : EscapeSequence)
    (hsize : sequence.data.size = maxEscapeSequenceLength + 1) :
    Edits maxLine maxHistory s { s with escapeSequence := sequence } :=
  ⟨{ hi with sequence := hsize }, rfl, rfl⟩

lemma showHistory_edits {index : ℕ} (hindex : index < s.history.length) :
    ∃ t, showHistory { s with historyIndex := index } = some t ∧ Edits maxLine maxHistory s t := by
  obtain ⟨hzero, hlength⟩ := hi.history.entry index hindex
  have hsize := hi.size
  rw [showHistory, Block.copyInto_eq (by simp only; omega)]
  refine ⟨_, rfl, Edits.redraw ⟨{ hi with
    size := hsize
    cursor_le := le_rfl
    lineLength_le := hlength.trans (Nat.le_add_right _ _)
    line_ne := fun i hlt => ?_
    index_le := Nat.le_sub_one_of_lt hindex }, rfl, rfl⟩⟩
  simp only at hlt ⊢
  rw [if_pos (Nat.zero_le i), Nat.sub_zero, List.getD_eq_getElem?_getD,
    List.getElem?_eq_getElem hlt,
    Option.getD_some]
  exact fun heq => hzero (heq ▸ List.getElem_mem hlt)

lemma olderHistory_edits : ∃ t, olderHistory s = some t ∧ Edits maxLine maxHistory s t := by
  rw [olderHistory]
  by_cases hnone : s.history.length = 0
  · exact ⟨s, if_pos hnone, .refl hi⟩
  rw [if_neg hnone]
  simp only
  generalize (if s.historyIndex ≠ 0 ∨
    s.lineLength ≠ 0 ∧ s.history.startsWith s.historyIndex s.text = true then
      s.historyIndex + 1 else s.historyIndex) = index
  by_cases hlast : index ≥ s.history.length
  · exact ⟨_, if_pos hlast, { hi with index_le := le_rfl }, rfl, rfl⟩
  · rw [if_neg hlast]
    exact showHistory_edits hi (Nat.lt_of_not_le hlast)

lemma newerHistory_edits : ∃ t, newerHistory s = some t ∧ Edits maxLine maxHistory s t := by
  have hindex := hi.index_le
  rw [newerHistory]
  split_ifs with hnone
  · exact ⟨s, rfl, .refl hi⟩
  · exact showHistory_edits hi (by omega)

lemma processCsiSequence_edits :
    ∃ t, processCsiSequence s = some t ∧ Edits maxLine maxHistory s t := by
  have hcursor := hi.cursor_le
  rw [processCsiSequence]
  generalize s.escapeSequence.data.string = sequence
  split_ifs with hA hB hC hin hD hin hH hin hF hin h3 hin
  · exact olderHistory_edits hi
  · exact newerHistory_edits hi
  · exact ⟨_, rfl, (cursor_edits hi (by omega)).redraw⟩
  · exact ⟨_, rfl, .refl hi⟩
  · exact ⟨_, rfl, (cursor_edits hi (by omega)).redraw⟩
  · exact ⟨_, rfl, .refl hi⟩
  · exact ⟨_, rfl, (cursor_edits hi (Nat.zero_le _)).redraw⟩
  · exact ⟨_, rfl, .refl hi⟩
  · exact ⟨_, rfl, (cursor_edits hi le_rfl).redraw⟩
  · exact ⟨_, rfl, .refl hi⟩
  · obtain ⟨t, ht, hedits⟩ := removeCharacter_edits hi hin
    exact ⟨redrawLine t, by rw [ht, Option.map_some], hedits.redraw⟩
  · exact ⟨_, rfl, .refl hi⟩
  · exact ⟨_, rfl, .refl hi⟩

end

/-! ### The history -/

/-- What the history becomes when a line is completed. -/
def remember (maxHistory : ℕ) (text : List UInt8) (entries : List (List UInt8)) :
    List (List UInt8) :=
  if text = [] ∨ entries.head? = some text then entries else (text :: entries).take maxHistory

lemma terminated_prefix_iff {a b : List UInt8} (hb : 0 ∉ b) :
    a ++ [0] <+: b ++ [0] ↔ b = a := by
  constructor
  · rintro ⟨l, hl⟩
    rcases List.eq_nil_or_concat l with rfl | ⟨l, x, rfl⟩
    · rw [List.append_nil] at hl
      exact (List.append_inj_left' hl rfl).symm
    · have hinner : a ++ [0] ++ l = b := by
        rw [List.concat_eq_append, ← List.append_assoc] at hl
        exact List.append_inj_left' hl rfl
      exact absurd (hinner ▸ by simp) hb
  · rintro rfl
    exact List.prefix_rfl

lemma text_of_shift {h : History} {data : Block (List UInt8)} {text : List UInt8} {m : ℕ}
    (hfirst : data.data 0 = text)
    (hrest : ∀ i < min m h.length, data.data (i + 1) = h.data.data i) :
    data.text (min m h.length + 1) = (text :: h.entries).take (m + 1) := by
  rw [Block.text, List.range_succ_eq_map, List.map_cons, hfirst, List.map_map,
    List.take_succ_cons, History.entries, Block.text, ← List.map_take, List.take_range]
  exact congrArg (text :: ·) (List.map_congr_left fun i hi => hrest i (List.mem_range.1 hi))

section

variable {h : History} {line : Block UInt8} {n : ℕ}

lemma startsWith_line (hzero : line.data n = 0)
    (hentry : 0 ∉ h.data.data 0) :
    h.startsWith 0 (line.text (n + 1)) = true ↔ h.data.data 0 = line.text n := by
  rw [History.startsWith, List.isPrefixOf_iff_prefix, Block.text_succ, hzero,
    terminated_prefix_iff hentry]

lemma head_entries (hlength : h.length ≠ 0) : h.entries.head? = some (h.data.data 0) := by
  obtain ⟨m, hm⟩ := Nat.exists_eq_succ_of_ne_zero hlength
  rw [History.entries, hm, Block.text, List.range_succ_eq_map]
  rfl

/-- **The history** remembers a line that is ended by a zero. -/
lemma expandHistory_spec (hh : h.Fits maxLine maxHistory) (hmax : 1 ≤ maxHistory)
    (hne : ∀ i < n, line.data i ≠ 0) (hzero : line.data n = 0) (hn : n < line.size)
    (hle : n ≤ maxLine) (h32 : n + 1 < 2 ^ 32) :
    ∃ h', expandHistory h line = some h' ∧ h'.Fits maxLine maxHistory ∧
      h.length ≤ h'.length ∧ h'.entries = remember maxHistory (line.text n) h.entries := by
  have hstring : line.string = line.text n := Block.string_eq hne hzero hn
  have htext : 0 ∉ line.text n := by
    intro hmem
    obtain ⟨i, hi, heq⟩ := List.mem_map.1 hmem
    exact hne i (List.mem_range.1 hi) heq
  have hempty : n + 1 = 1 ↔ line.text n = [] := by
    rw [← List.length_eq_zero_iff, Block.length_text]
    omega
  have hsame : (h.length ≠ 0 ∧ h.startsWith 0 (line.text (n + 1)) = true) ↔
      h.entries.head? = some (line.text n) := by
    by_cases hlength : h.length = 0
    · have hnil : h.entries = [] := by rw [History.entries, hlength]; rfl
      simp [hlength, hnil]
    · have hentry := (hh.entry 0 (Nat.pos_of_ne_zero hlength)).1
      rw [startsWith_line hzero hentry, head_entries hlength, Option.some.injEq]
      exact and_iff_right hlength
  rw [expandHistory, hstring, Block.length_text, Nat.mod_eq_of_lt h32, remember]
  simp only
  by_cases hknown : line.text n = [] ∨ h.entries.head? = some (line.text n)
  · rw [if_pos hknown, if_pos (by rwa [hempty, hsame])]
    exact ⟨h, rfl, hh, le_rfl, rfl⟩
  · rw [if_neg hknown, if_neg (by rwa [hempty, hsame])]
    have hlength := hh.length_le
    have hmaxLength := hh.maxLength
    have hsize := hh.size
    obtain ⟨m, rfl⟩ := Nat.exists_eq_add_of_le' hmax
    have hnew : (if h.length = h.maxLength then h.length else h.length + 1) =
        min m h.length + 1 := by
      split_ifs <;> omega
    rw [hnew, Nat.add_sub_cancel]
    have htake : (line.text (n + 1)).takeWhile (· ≠ 0) = line.text n := by
      rw [Block.text_succ, hzero, List.takeWhile_append_of_pos]
      · simp
      · exact fun x hx => decide_eq_true fun heq => htext (heq ▸ hx)
    rw [htake, Block.shiftUp_eq 0 (by omega)]
    simp only [Option.bind_eq_bind, Option.bind_some]
    rw [Block.write_eq (by simp only; omega), Option.bind_some]
    have hrest : ∀ i < min m h.length, (Block.set ⟨h.data.size, fun i =>
        if 0 < i ∧ i ≤ min m h.length then h.data.data (i - 1) else h.data.data i⟩ 0
          (line.text n)).data (i + 1) = h.data.data i := by
      intro i hi
      rw [Block.data_set_of_ne (Nat.succ_ne_zero i)]
      exact if_pos ⟨Nat.succ_pos i, hi⟩
    refine ⟨_, rfl, ⟨hmaxLength, hsize, by simp only; omega, fun i hi => ?_⟩,
      by simp only; omega, text_of_shift (Block.data_set_self _ _) hrest⟩
    cases i with
    | zero =>
      simp only [Block.data_set_self]
      exact ⟨htext, (Block.length_text n).trans_le hle⟩
    | succ i =>
      have hlt : i < min m h.length := Nat.lt_of_succ_lt_succ hi
      simp only [hrest i hlt]
      exact hh.entry i (by omega)

end

/-! ### The step -/

/-- A step that returns a line and remembers it. -/
structure Ends (maxHistory : ℕ) (s t : State) (text : List UInt8) : Prop where
  event_eq : t.event = .line
  text_eq : t.text = text ++ [10]
  entries_eq : t.history.entries = remember maxHistory text s.history.entries

/-- What a step of the editor does. -/
structure Steps (maxLine maxHistory : ℕ) (s t : State) : Prop where
  inv : Inv maxLine maxHistory t
  ends : t.event ≠ .line ∧ t.history = s.history ∨ ∃ text, Ends maxHistory s t text

section

lemma Steps.of_history {s' : State} (h : Steps maxLine maxHistory s' t)
    (hhistory : s'.history = s.history) : Steps maxLine maxHistory s t := by
  refine ⟨h.inv, h.ends.imp (And.imp_right (·.trans hhistory)) ?_⟩
  rintro ⟨text, hends⟩
  exact ⟨text, { hends with entries_eq := hhistory ▸ hends.entries_eq }⟩

lemma Edits.steps (h : Edits maxLine maxHistory s t) (he : s.event = .none) :
    Steps maxLine maxHistory s t := by
  refine ⟨h.inv, .inl ⟨?_, h.history⟩⟩
  rw [h.event, he]
  exact nofun

variable (hi : Inv maxLine maxHistory s) (he : s.event = .none) (hmax : 1 ≤ maxHistory)
  (h32 : maxLine + 2 < 2 ^ 32)
include hi he hmax h32

lemma processNewline_steps :
    ∃ t, processNewline s = some t ∧ Steps maxLine maxHistory s t := by
  have hle := hi.le_maxLine he
  have hsize := hi.size
  have hend := (cursor_edits hi (le_refl s.lineLength)).redraw
  have hline : (redrawLine { s with cursor := s.lineLength }).line = s.line := line_redrawLine
  have hlength : (redrawLine { s with cursor := s.lineLength }).lineLength = s.lineLength :=
    lineLength_redrawLine
  rw [processNewline]
  generalize redrawLine { s with cursor := s.lineLength } = u at hend hline hlength
  simp only [hline, hlength]
  -- the line is ended by a zero while the history looks at it
  have hne : ∀ i < s.lineLength, (s.line.set s.lineLength 0).data i ≠ 0 := by
    intro i hlt
    rw [Block.data_set_of_ne hlt.ne]
    exact hi.line_ne i hlt
  obtain ⟨h, hh, hfits, hgrows, hentries⟩ := expandHistory_spec hend.inv.history hmax hne
    (Block.data_set_self _ _) hi.lt_size hle (by omega)
  rw [Block.write_eq hi.lt_size]
  simp only [Option.bind_eq_bind, Option.bind_some, hh]
  rw [Block.write_eq ((Block.size_set _ _).symm ▸ hi.lt_size), Option.bind_some,
    Nat.mod_eq_of_lt (by omega),
    Block.write_eq (by simp only [Block.size_set]; omega), Option.bind_some]
  have hdata : ∀ i < s.lineLength, (((s.line.set s.lineLength 0).set s.lineLength 10).set
      (s.lineLength + 1) 0).data i = s.line.data i := by
    intro i hlt
    rw [Block.data_set_of_ne (by omega), Block.data_set_of_ne hlt.ne, Block.data_set_of_ne hlt.ne]
  have hnewline : (((s.line.set s.lineLength 0).set s.lineLength 10).set
      (s.lineLength + 1) 0).data s.lineLength = 10 := by
    rw [Block.data_set_of_ne (by omega), Block.data_set_self]
  have hcursor := hend.inv.cursor_le
  have hindex := hend.inv.index_le
  refine ⟨_, rfl, { hend.inv with
    size := hsize
    cursor_le := by simp only; omega
    lineLength_le := by simp only [if_true]; omega
    line_ne := fun i hlt => ?_
    history := hfits
    index_le := by simp only; omega }, .inr ⟨s.text, rfl, ?_, ?_⟩⟩
  · rcases Nat.lt_succ_iff_lt_or_eq.1 hlt with hlt | rfl
    · exact (hdata i hlt).trans_ne (hi.line_ne i hlt)
    · exact hnewline.trans_ne (by decide)
  · rw [State.text, State.text, Block.text_succ, Block.text_congr hdata, hnewline]
  · rw [hentries, ← hend.history, State.text]
    exact congrArg (remember maxHistory · _)
      (Block.text_congr fun i hlt => Block.data_set_of_ne (hlt.ne) _)

lemma processCharacter_steps {c : UInt8} (hc : c ≠ 0) :
    ∃ t, processCharacter s c = some t ∧ Steps maxLine maxHistory s t := by
  have hcursor := hi.cursor_le
  rw [processCharacter]
  split_ifs with h3 hback hfirst htab hnewline hescape
  · exact ⟨_, rfl, { hi with lineLength_le := hi.le_maxLine he }, .inl ⟨nofun, rfl⟩⟩
  · have hbefore := (cursor_edits hi ((Nat.sub_le s.cursor 1).trans hcursor)).inv
    obtain ⟨t, ht, hedits⟩ := removeCharacter_edits hbefore (by simp only; omega)
    exact ⟨redrawLine t, by rw [ht, Option.map_some],
      Edits.steps (Edits.redraw ⟨hedits.inv, hedits.event, hedits.history⟩) he⟩
  · exact ⟨s, rfl, (Edits.refl hi).steps he⟩
  · exact ⟨s, rfl, (Edits.refl hi).steps he⟩
  · exact processNewline_steps hi he hmax h32
  · exact ⟨_, rfl,
      (sequence_edits hi { s.escapeSequence with state := .init } hi.sequence).steps he⟩
  · obtain ⟨t, ht, hedits⟩ := emitCharacter_edits hi hc
    exact ⟨redrawLine t, by rw [ht, Option.map_some], hedits.redraw.steps he⟩

omit hmax h32 in
lemma finishSequence_steps (c : UInt8) (hroom : s.escapeSequence.length < maxEscapeSequenceLength) :
    ∃ t, finishSequence s c = some t ∧ Steps maxLine maxHistory s t := by
  have hsize := hi.sequence
  rw [finishSequence, extendSequence, Block.write_eq (by omega)]
  simp only [Option.bind_eq_bind, Option.bind_some]
  rw [Block.write_eq (by simp only [Block.size_set]; omega), Option.bind_some]
  obtain ⟨t, ht, hedits⟩ := processCsiSequence_edits (sequence_edits hi
    ⟨s.escapeSequence.state, s.escapeSequence.length + 1,
      (s.escapeSequence.data.set s.escapeSequence.length c).set (s.escapeSequence.length + 1) 0⟩
    hsize).inv
  rw [ht, Option.bind_some]
  have hclosed := sequence_edits hedits.inv { t.escapeSequence with state := .none }
    hedits.inv.sequence
  exact ⟨_, rfl, Edits.steps ⟨hclosed.inv, hclosed.event.trans hedits.event,
    hclosed.history.trans hedits.history⟩ he⟩

omit hmax h32 in
lemma extendSequence_steps (state : SequenceState) (c : UInt8)
    (hroom : s.escapeSequence.length < maxEscapeSequenceLength) :
    ∃ t, extendSequence s state c = some t ∧ Steps maxLine maxHistory s t := by
  have hsize := hi.sequence
  rw [extendSequence, Block.write_eq (by omega)]
  exact ⟨_, rfl, (sequence_edits hi ⟨state, s.escapeSequence.length + 1,
    s.escapeSequence.data.set s.escapeSequence.length c⟩ hsize).steps he⟩

/-- **One character** never misses a block, and ends a line or leaves the history as it is. -/
lemma processByte_steps {c : UInt8} (hc : c ≠ 0) :
    ∃ t, processByte s c = some t ∧ Steps maxLine maxHistory s t := by
  have hother := (sequence_edits hi { s.escapeSequence with state := .none } hi.sequence).inv
  have hfallback : ∃ t, processCharacter { s with escapeSequence.state := .none } c = some t ∧
      Steps maxLine maxHistory s t := by
    obtain ⟨t, ht, hsteps⟩ := processCharacter_steps hother he hmax h32 hc
    exact ⟨t, ht, hsteps.of_history rfl⟩
  rw [processByte]
  cases hstate : s.escapeSequence.state with
  | none => exact processCharacter_steps hi he hmax h32 hc
  | init =>
    simp only
    split_ifs with hbracket
    · exact ⟨_, rfl, (sequence_edits hi ⟨.csiParameters, 0, _⟩ hi.sequence).steps he⟩
    · exact hfallback
  | csiParameters =>
    simp only
    split_ifs with hparameter hintermediate hlast
    · exact extendSequence_steps hi he _ c hparameter.2.2.2
    · exact extendSequence_steps hi he _ c hintermediate.2.2
    · exact finishSequence_steps hi he c hlast.2.2
    · exact hfallback
  | csiIntermediate =>
    simp only
    rw [if_neg (fun h => nomatch h.1)]
    split_ifs with hintermediate hlast
    · exact extendSequence_steps hi he _ c hintermediate.2.2
    · exact finishSequence_steps hi he c hlast.2.2
    · exact hfallback

end

/-! ### The lines that were returned -/

/-- The lines without their newlines, newest first, less the empty ones and the repetitions. -/
def recentLines (lines : List (List UInt8)) : List (List UInt8) :=
  ((lines.map List.dropLast).reverse.filter (· ≠ [])).destutter (· ≠ ·)

lemma recentLines_append (lines : List (List UInt8)) (text : List UInt8) (hmax : 1 ≤ maxHistory) :
    (recentLines (lines ++ [text ++ [10]])).take maxHistory =
      remember maxHistory text ((recentLines lines).take maxHistory) := by
  obtain ⟨m, rfl⟩ := Nat.exists_eq_add_of_le' hmax
  rw [recentLines, recentLines, List.map_append, List.reverse_append]
  simp only [List.map_cons, List.map_nil, List.dropLast_concat, List.reverse_singleton,
    List.singleton_append]
  generalize (lines.map List.dropLast).reverse = completed
  rw [remember]
  by_cases hempty : text = []
  · rw [if_pos (.inl hempty), hempty]
    rfl
  have hfilter : (text :: completed).filter (· ≠ []) = text :: completed.filter (· ≠ []) :=
    List.filter_cons_of_pos (decide_eq_true hempty)
  rw [hfilter]
  cases hrest : completed.filter (· ≠ []) with
  | nil =>
    rw [if_neg (by simp [hempty])]
    simp
  | cons newest older =>
    have hhead : ∀ l : List (List UInt8), ∀ a, (l.destutter' (· ≠ ·) a).head? = some a := by
      intro l a
      induction l with
      | nil => rfl
      | cons b l ih =>
        rw [List.destutter'_cons]
        split_ifs
        · rfl
        · exact ih
    rw [List.destutter_cons_cons, List.destutter_cons', List.head?_take,
      if_neg (Nat.succ_ne_zero m), hhead]
    by_cases hsame : text = newest
    · rw [if_neg (not_not.2 hsame), if_pos (.inr (congrArg some hsame.symm)), hsame]
    · rw [if_pos hsame, if_neg (by simp [hempty, Ne.symm hsame]), List.take_succ_cons,
        List.take_succ_cons, List.take_take, Nat.min_eq_left (Nat.le_succ m)]

/-! ### Reading the characters one by one -/

/-- The characters are handed to one call each. -/
def readBytes (s : State) : List UInt8 → Option (State × List (List UInt8))
  | [] => some (s, [])
  | c :: stream => do
    let t ← processByte (startCall s) c
    let (u, lines) ← readBytes t stream
    some (u, returned t ++ lines)

lemma readBytes_append {p q : List UInt8} {u : State} {lines lines' : List (List UInt8)}
    (hp : readBytes s p = some (t, lines)) (hq : readBytes t q = some (u, lines')) :
    readBytes s (p ++ q) = some (u, lines ++ lines') := by
  induction p generalizing s lines with
  | nil =>
    cases hp
    exact hq
  | cons c p ih =>
    rw [readBytes] at hp
    obtain ⟨s', hs', hp⟩ := Option.bind_eq_some_iff.1 hp
    obtain ⟨⟨t', lines''⟩, htail, hp⟩ := Option.bind_eq_some_iff.1 hp
    cases hp
    rw [List.cons_append, readBytes, hs']
    simp only [Option.bind_eq_bind, Option.bind_some, ih htail, List.append_assoc]

lemma startCall_inv (hi : Inv maxLine maxHistory s) : Inv maxLine maxHistory (startCall s) := by
  have hle := hi.lineLength_le
  rw [startCall]
  split_ifs with hline
  · exact { hi with
      cursor_le := le_rfl
      lineLength_le := Nat.zero_le _
      line_ne := fun i hlt => absurd hlt (Nat.not_lt_zero i)
      index_le := Nat.zero_le _ }
  · rw [if_neg hline] at hle
    exact { hi with lineLength_le := hle }

@[simp] lemma history_startCall : (startCall s).history = s.history := by
  rw [startCall]
  split_ifs <;> rfl

lemma startCall_eq (he : s.event = .none) : startCall s = s := by
  rw [startCall, he, if_neg nofun, ← he]

lemma startCall_startCall : startCall (startCall s) = startCall s := startCall_eq rfl

lemma readBytes_startCall {p : List UInt8} (hp : p ≠ []) :
    readBytes (startCall s) p = readBytes s p := by
  obtain ⟨c, p, rfl⟩ := List.exists_cons_of_ne_nil hp
  rw [readBytes, readBytes, startCall_startCall]

section

variable (hmax : 1 ≤ maxHistory) (h32 : maxLine + 2 < 2 ^ 32)
include hmax h32

/-- **Any characters** are read, and the history holds the lines. -/
lemma readBytes_spec {stream : List UInt8} (hs : 0 ∉ stream) (hi : Inv maxLine maxHistory s)
    (before : List (List UInt8))
    (hbefore : s.history.entries = (recentLines before).take maxHistory) :
    ∃ t lines, readBytes s stream = some (t, lines) ∧ Inv maxLine maxHistory t ∧
      t.history.entries = (recentLines (before ++ lines)).take maxHistory := by
  induction stream generalizing s before with
  | nil => exact ⟨s, [], rfl, hi, by rw [List.append_nil, hbefore]⟩
  | cons c stream ih =>
    rw [List.mem_cons, not_or] at hs
    obtain ⟨t, ht, hsteps⟩ := processByte_steps (startCall_inv hi) rfl hmax h32 (Ne.symm hs.1)
    have hafter : t.history.entries = (recentLines (before ++ returned t)).take maxHistory := by
      rcases hsteps.ends with ⟨hevent, hhistory⟩ | ⟨text, hends⟩
      · rw [returned, if_neg hevent, List.append_nil, hhistory, history_startCall, hbefore]
      · rw [returned, if_pos hends.event_eq, hends.text_eq, recentLines_append _ _ hmax,
          hends.entries_eq, history_startCall, hbefore]
    obtain ⟨u, lines, hu, hinv, hentries⟩ := ih hs.2 hsteps.inv _ hafter
    refine ⟨u, returned t ++ lines, ?_, hinv, by rw [hentries, List.append_assoc]⟩
    rw [readBytes, ht]
    simp only [Option.bind_eq_bind, Option.bind_some, hu]

lemma processLoop_spec {buffer : List UInt8} (hb : 0 ∉ buffer) (hi : Inv maxLine maxHistory s)
    (he : s.event = .none) :
    ∃ t n, processLoop s buffer = some (t, n) ∧ n ≤ buffer.length ∧ (buffer ≠ [] → 0 < n) ∧
      readBytes s (buffer.take n) = some (t, returned t) ∧ Inv maxLine maxHistory t := by
  induction buffer generalizing s with
  | nil => exact ⟨s, 0, rfl, le_rfl, fun h => absurd rfl h, by rw [returned, he]; rfl, hi⟩
  | cons c buffer ih =>
    rw [List.mem_cons, not_or] at hb
    obtain ⟨t, ht, hsteps⟩ := processByte_steps hi he hmax h32 (Ne.symm hb.1)
    rw [processLoop, ht]
    simp only [Option.bind_eq_bind, Option.bind_some]
    by_cases hevent : t.event = .none
    · obtain ⟨u, n, hu, hn, -, hread, hinv⟩ := ih hb.2 hsteps.inv hevent
      refine ⟨u, n + 1, ?_, Nat.succ_le_succ hn, fun _ => Nat.succ_pos n, ?_, hinv⟩
      · rw [if_neg (not_not.2 hevent), hu, Option.map_some]
      · rw [List.take_succ_cons, readBytes, startCall_eq he, ht]
        simp only [Option.bind_eq_bind, Option.bind_some, hread, Option.some.injEq, Prod.mk.injEq,
          true_and]
        rw [returned, hevent]
        rfl
    · refine ⟨t, 1, if_pos hevent, Nat.succ_le_succ (Nat.zero_le _), fun _ => Nat.one_pos, ?_,
        hsteps.inv⟩
      rw [List.take_succ_cons, List.take_zero, readBytes, startCall_eq he, ht]
      simp [readBytes]

/-- **Any calls** that are handed a character read some of them as if one by one. -/
lemma calls_spec (cuts : List ℕ) {stream : List UInt8} (hs : 0 ∉ stream)
    (hi : Inv maxLine maxHistory s) :
    ∃ t lines rest p, calls s cuts stream = some (t, lines, rest) ∧ stream = p ++ rest ∧
      readBytes s p = some (t, lines) := by
  induction cuts generalizing s stream with
  | nil => exact ⟨s, [], stream, [], rfl, rfl, rfl⟩
  | cons n cuts ih =>
    by_cases hstream : stream = []
    · exact ⟨s, [], [], [], if_pos hstream, hstream, rfl⟩
    · have hpiece : 0 ∉ stream.take (n + 1) := fun hmem => hs (List.mem_of_mem_take hmem)
      obtain ⟨t, m, ht, hm, hpos, hread, hinv⟩ :=
        processLoop_spec hmax h32 hpiece (startCall_inv hi) rfl
      have hrest : 0 ∉ stream.drop m := fun hmem => hs (List.mem_of_mem_drop hmem)
      obtain ⟨u, lines, rest, p, hu, hsplit, hp⟩ := ih hrest hinv
      have hcall : readBytes s (stream.take m) = some (t, returned t) := by
        have htake : (stream.take (n + 1)).take m = stream.take m := by
          rw [List.take_take, Nat.min_eq_left ?_]
          rw [List.length_take] at hm
          omega
        have hne : stream.take m ≠ [] := by
          have hsome := hpos (by simpa using hstream)
          rw [ne_eq, List.take_eq_nil_iff, not_or]
          exact ⟨hsome.ne', hstream⟩
        rwa [htake, readBytes_startCall hne] at hread
      refine ⟨u, returned t ++ lines, rest, stream.take m ++ p, ?_, ?_, readBytes_append hcall hp⟩
      · rw [calls, if_neg hstream, readlineProcess, ht]
        simp only [Option.bind_eq_bind, Option.bind_some, hu]
      · rw [List.append_assoc, ← hsplit, List.take_append_drop]

end

/-! ### Every way of cutting -/

/-- The state after a call that leaves the lines returned so far. -/
structure Tidy (maxLine maxHistory : ℕ) (s : State) (lines : List (List UInt8)) : Prop where
  cursor_le : s.cursor ≤ s.lineLength
  lineLength_le : s.lineLength ≤ maxLine + if s.event = .line then 1 else 0
  history : s.history.entries = (recentLines lines).take maxHistory

/-- No call misses a block, all of them leave the editor tidy, and the cuts do not matter; a call
without characters in between is not noticed either. -/
structure Sound (maxLine maxHistory : ℕ) (s : State) (stream : List UInt8) : Prop where
  tidy : ∀ cuts, ∃ t lines rest, calls s cuts stream = some (t, lines, rest) ∧
    Tidy maxLine maxHistory t lines
  cut : ∀ cuts cuts' t t' lines lines', calls s cuts stream = some (t, lines, []) →
    calls s cuts' stream = some (t', lines', []) → t = t' ∧ lines = lines'
  empty : ∀ cuts t lines rest, calls s cuts stream = some (t, lines, rest) →
    ∃ t', readlineProcess t [] = some (t', 0) ∧ t'.event = .none ∧
      Tidy maxLine maxHistory t' lines ∧
      ∀ buffer, readlineProcess t' buffer = readlineProcess t buffer

/-- The editor is sound for a maximum line length. -/
def KeepsLine (maxLine : ℕ) : Prop :=
  ∀ maxHistory, 1 ≤ maxHistory → ∀ memory stream, 0 ∉ stream →
    Sound maxLine maxHistory (readlineStateInit memory maxLine maxHistory) stream

lemma Inv.tidy (hi : Inv maxLine maxHistory s) {lines : List (List UInt8)}
    (hh : s.history.entries = (recentLines lines).take maxHistory) :
    Tidy maxLine maxHistory s lines :=
  ⟨hi.cursor_le, hi.lineLength_le, hh⟩

lemma readlineStateInit_inv (memory : Uninitialised) (h32 : maxLine + 2 < 2 ^ 32) :
    Inv maxLine maxHistory (readlineStateInit memory maxLine maxHistory) where
  maxLineLength := rfl
  size := Nat.mod_eq_of_lt h32
  cursor_le := le_rfl
  lineLength_le := Nat.zero_le _
  line_ne := fun i hlt => absurd hlt (Nat.not_lt_zero i)
  history := ⟨rfl, rfl, Nat.zero_le _, fun i hlt => absurd hlt (Nat.not_lt_zero i)⟩
  index_le := le_rfl
  sequence := rfl

lemma keepsLine_of_lt (h32 : maxLine + 2 < 2 ^ 32) : KeepsLine maxLine := by
  intro maxHistory hmax memory stream hs
  have hi := @readlineStateInit_inv maxLine maxHistory memory h32
  have hrun : ∀ cuts, ∃ t lines rest p,
      calls (readlineStateInit memory maxLine maxHistory) cuts stream = some (t, lines, rest) ∧
      stream = p ++ rest ∧
      readBytes (readlineStateInit memory maxLine maxHistory) p = some (t, lines) ∧
      Inv maxLine maxHistory t ∧ t.history.entries = (recentLines lines).take maxHistory := by
    intro cuts
    obtain ⟨t, lines, rest, p, hcalls, hsplit, hread⟩ := calls_spec hmax h32 cuts hs hi
    have hp : 0 ∉ p := fun hmem => hs (hsplit ▸ List.mem_append_left _ hmem)
    obtain ⟨t', lines', hread', hinv, hentries⟩ := readBytes_spec hmax h32 hp hi []
      (List.take_nil).symm
    cases hread.symm.trans hread'
    exact ⟨t, lines, rest, p, hcalls, hsplit, hread, hinv, hentries⟩
  refine ⟨fun cuts => ?_, fun cuts cuts' t t' lines lines' ht ht' => ?_,
    fun cuts t lines rest ht => ?_⟩
  · obtain ⟨t, lines, rest, p, hcalls, -, -, hinv, hentries⟩ := hrun cuts
    exact ⟨t, lines, rest, hcalls, hinv.tidy hentries⟩
  · obtain ⟨u, ulines, rest, p, hcalls, hsplit, hread, -⟩ := hrun cuts
    obtain ⟨u', ulines', rest', p', hcalls', hsplit', hread', -⟩ := hrun cuts'
    cases ht.symm.trans hcalls
    cases ht'.symm.trans hcalls'
    rw [List.append_nil] at hsplit hsplit'
    rw [← hsplit] at hread
    rw [← hsplit'] at hread'
    cases hread.symm.trans hread'
    exact ⟨rfl, rfl⟩
  · obtain ⟨u, ulines, rest', p, hcalls, -, -, hinv, hentries⟩ := hrun cuts
    cases ht.symm.trans hcalls
    refine ⟨startCall t, rfl, rfl, (startCall_inv hinv).tidy ?_, fun buffer => ?_⟩
    · rw [history_startCall, hentries]
    · rw [readlineProcess, readlineProcess, startCall_startCall]

/-! ### A length that is too large -/

def zeroMemory : Uninitialised := ⟨fun _ => 0, fun _ => [], fun _ => 0, 0⟩

lemma not_keepsLine (h : KeepsLine maxLine)
    (hnone : calls (readlineStateInit zeroMemory maxLine 1) [0] [10] = none) : False := by
  obtain ⟨t, lines, rest, hcalls, -⟩ :=
    (h 1 le_rfl zeroMemory [10] (by decide)).tidy [0]
  rw [hnone] at hcalls
  cases hcalls

/-- **The line editor** is sound exactly when the size of its line fits into 32 bits. -/
theorem keepsLine_iff (hmax : maxLine < 2 ^ 32) : KeepsLine maxLine ↔ maxLine < 2 ^ 32 - 2 := by
  refine ⟨fun h => ?_, fun h => keepsLine_of_lt (by omega)⟩
  by_contra hlarge
  have hcases : maxLine = 2 ^ 32 - 2 ∨ maxLine = 2 ^ 32 - 1 := by omega
  rcases hcases with rfl | rfl
  · exact not_keepsLine h rfl
  · exact not_keepsLine h rfl

theorem keepsLine_4096 : KeepsLine 4096 := (keepsLine_iff (by norm_num)).2 (by norm_num)

/-- The line of this editor has no room for a character. -/
theorem keepsLine_no_room : ¬KeepsLine (2 ^ 32 - 2) := fun h => not_keepsLine h rfl

end KernelModel.Readline
