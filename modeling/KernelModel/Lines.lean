import Mathlib.Tactic

/-!
Texts that are the same apart from the blanks on otherwise empty lines.
-/

namespace KernelModel.Lines

variable {α : Type*}

/-- A line that is read as empty, if there are only blanks on it. -/
def emptied (blank : α → Bool) (l : List α) : List α := if l.all blank then [] else l

variable [DecidableEq α]

/-- The lines of a text, without the blanks on otherwise empty lines. -/
def visible (nl : α) (blank : α → Bool) (t : List α) : List (List α) :=
  (t.splitOn nl).map (emptied blank)

def SameText (nl : α) (blank : α → Bool) (t t' : List α) : Prop :=
  visible nl blank t = visible nl blank t'

instance {nl : α} {blank : α → Bool} {t t' : List α} : Decidable (SameText nl blank t t') :=
  inferInstanceAs (Decidable (_ = _))

section

variable {nl : α} {blank : α → Bool} {l t t' u u' w : List α} {c : α}

omit [DecidableEq α] in
lemma emptied_of_blank (h : ∀ c ∈ l, blank c) : emptied blank l = [] :=
  if_pos (List.all_eq_true.mpr h)

lemma visible_append_cons : visible nl blank (t ++ nl :: u) =
    visible nl blank t ++ visible nl blank u := by
  rw [visible, List.splitOn_append_cons_self, List.map_append]
  rfl

lemma visible_of_not_mem (h : nl ∉ l) : visible nl blank l = [emptied blank l] := by
  rw [visible, List.splitOn_eq_singleton h, List.map_singleton]

namespace SameText

lemma rfl : SameText nl blank t t := Eq.refl _

lemma symm (h : SameText nl blank t t') : SameText nl blank t' t := Eq.symm h

lemma trans (h : SameText nl blank t t') (h' : SameText nl blank t' u) : SameText nl blank t u :=
  Eq.trans h h'

/-- The lines before a newline and those behind it are compared on their own. -/
lemma append (h : SameText nl blank t t') (h' : SameText nl blank u u') :
    SameText nl blank (t ++ nl :: u) (t' ++ nl :: u') := by
  rw [SameText, visible_append_cons, visible_append_cons, h, h']

lemma append_iff (h : SameText nl blank t t') :
    SameText nl blank (t ++ nl :: u) (t' ++ nl :: u') ↔ SameText nl blank u u' := by
  refine ⟨fun h' => ?_, h.append⟩
  rw [SameText, visible_append_cons, visible_append_cons, h] at h'
  exact List.append_cancel_left h'

lemma cons_iff : SameText nl blank (nl :: u) (nl :: u') ↔ SameText nl blank u u' :=
  (SameText.rfl (t := [])).append_iff

lemma of_append (h : SameText nl blank (t ++ nl :: u) (t' ++ nl :: u)) :
    SameText nl blank t t' := by
  rw [SameText, visible_append_cons, visible_append_cons] at h
  exact List.append_cancel_right h

end SameText

lemma sameText_replicate (h : ∀ c ∈ t, c = nl ∨ blank c) :
    SameText nl blank t (List.replicate (t.count nl) nl) := by
  induction hn : t.count nl generalizing t with
  | zero =>
    have hnl : nl ∉ t := List.count_eq_zero.mp hn
    rw [SameText, visible_of_not_mem hnl, List.replicate_zero, visible_of_not_mem List.not_mem_nil,
      emptied_of_blank fun c hc => (h c hc).resolve_left fun heq => hnl (heq ▸ hc)]
    rfl
  | succ n ih =>
    obtain ⟨x, y, rfl, hx⟩ := List.eq_append_cons_of_mem
      (List.count_pos_iff.mp (hn ▸ Nat.succ_pos n) : nl ∈ t)
    have hblank : ∀ c ∈ x, blank c := fun c hc =>
      (h c (List.mem_append_left _ hc)).resolve_left fun heq => hx (heq ▸ hc)
    have hcount : y.count nl = n := by
      rw [List.count_append, List.count_eq_zero_of_not_mem hx, List.count_cons_self] at hn
      omega
    have hline : SameText nl blank x [] := by
      rw [SameText, visible_of_not_mem hx, visible_of_not_mem List.not_mem_nil,
        emptied_of_blank hblank]
      rfl
    rw [List.replicate_succ]
    exact hline.append (ih (fun c hc => h c (by simp [hc])) hcount)

/-- The characters that are seen, and the newlines. -/
def ink (nl : α) (blank : α → Bool) (t : List α) : ℕ :=
  t.countP fun c => c = nl ∨ ¬blank c

lemma ink_append : ink nl blank (t ++ u) = ink nl blank t + ink nl blank u :=
  List.countP_append

lemma ink_emptied (h : nl ∉ l) : ink nl blank (emptied blank l) = ink nl blank l := by
  rw [emptied]
  split_ifs with hall
  · refine (List.countP_eq_zero.mpr fun c hc => ?_).symm
    have hne : c ≠ nl := fun heq => h (heq ▸ hc)
    simp [hne, List.all_eq_true.mp hall c hc]
  · rfl

lemma ink_visible (t : List α) : ink nl blank t + 1 =
    ((visible nl blank t).map fun l => ink nl blank l + 1).sum := by
  induction hn : t.count nl generalizing t with
  | zero =>
    have hnl : nl ∉ t := List.count_eq_zero.mp hn
    rw [visible_of_not_mem hnl, List.map_singleton, List.sum_singleton, ink_emptied hnl]
  | succ n ih =>
    obtain ⟨x, y, rfl, hx⟩ := List.eq_append_cons_of_mem
      (List.count_pos_iff.mp (hn ▸ Nat.succ_pos n) : nl ∈ t)
    have hcount : y.count nl = n := by
      rw [List.count_append, List.count_eq_zero_of_not_mem hx, List.count_cons_self] at hn
      omega
    have hcons : ink nl blank (nl :: y) = ink nl blank y + 1 := by
      rw [ink, List.countP_cons_of_pos (by simp), ink]
    rw [visible_append_cons, List.map_append, List.sum_append, visible_of_not_mem hx,
      List.map_singleton, List.sum_singleton, ← ih y hcount, ink_append, hcons, ink_emptied hx]
    omega

lemma SameText.ink_eq (h : SameText nl blank t t') : ink nl blank t = ink nl blank t' := by
  have hink := @ink_visible _ _ nl blank t
  rw [h, ← ink_visible] at hink
  exact Nat.succ.inj hink

lemma last_line (nl : α) (t : List α) : nl ∉ t ∨ ∃ x l, t = x ++ nl :: l ∧ nl ∉ l := by
  by_cases h : nl ∈ t
  · obtain ⟨x, y, hrev, hx⟩ := List.eq_append_cons_of_mem (List.mem_reverse.mpr h)
    refine .inr ⟨y.reverse, x.reverse, ?_, fun hmem => hx (List.mem_reverse.mp hmem)⟩
    rw [← List.reverse_reverse t, hrev, List.reverse_append, List.reverse_cons, List.append_assoc,
      List.singleton_append]
  · exact .inl h

lemma blank_of_sameText (hl : nl ∉ l) (hw : nl ∉ w)
    (h : SameText nl blank (t ++ l ++ w) (t ++ l)) : w = [] ∨ ∀ c ∈ l, blank c := by
  have hline : ∀ {y : List α}, emptied blank (y ++ l ++ w) = emptied blank (y ++ l) →
      w = [] ∨ ∀ c ∈ l, blank c := by
    intro y heq
    rw [emptied, emptied] at heq
    split_ifs at heq with hall hall' hall'
    · exact .inr fun c hc => List.all_eq_true.mp hall' c (List.mem_append_right y hc)
    · exact .inr fun c hc => List.all_eq_true.mp hall c
        (List.mem_append_left w (List.mem_append_right y hc))
    · exact .inr fun c hc => List.all_eq_true.mp hall' c (List.mem_append_right y hc)
    · exact .inl (List.append_right_eq_self.mp heq)
  have hnot : ∀ {y : List α}, nl ∉ y → nl ∉ y ++ l ∧ nl ∉ y ++ l ++ w := fun hy => by
    simp only [List.mem_append, not_or]
    exact ⟨⟨hy, hl⟩, ⟨hy, hl⟩, hw⟩
  rcases last_line nl t with ht | ⟨x, y, rfl, hy⟩
  · rw [SameText, visible_of_not_mem (hnot ht).1, visible_of_not_mem (hnot ht).2] at h
    exact hline (List.cons.inj h).1
  · simp only [SameText, List.append_assoc, List.cons_append] at h
    rw [← List.append_assoc, visible_append_cons, visible_append_cons,
      visible_of_not_mem (hnot hy).1, visible_of_not_mem (hnot hy).2] at h
    exact hline (List.cons.inj (List.append_cancel_left h)).1

end

end KernelModel.Lines
