import KernelModel.LinkerUniforms
import KernelModel.LinkerVaryings

/-!
What linking promises.

The slots of a linked program are consistent. Linking should fail only where names, types or
locations do not match or where the slots do not fit; it also fails where a layout ends with the
last slot there is, and where the first free places leave no room although others would.
-/

namespace KernelModel.Glsl

open Allocator

/-! ### The promise -/

/-- A variable after linking: only its slot is new, and not one that the shader gives. -/
def Keeps (v v' : Var) : Prop :=
  v' = { v with slot := v'.slot } ∧ (v.slot ≠ noSlot → v'.slot = v.slot)

/-- The slots of a linked program. -/
structure Consistent (vertex fragment : List Var) (r : Linked) : Prop where
  vertex_kept : List.Forall₂ Keeps vertex r.vertex
  fragment_kept : List.Forall₂ Keeps fragment r.fragment
  inputs_inside : ∀ v ∈ r.vertex, v.type = .input → v.slot + v.slotCount ≤ glMaxVertexAttribs
  inputs_apart : ∀ v ∈ r.vertex, ∀ w ∈ r.vertex, v.type = .input → w.type = .input → v ≠ w →
    v.Apart w
  paired : ∀ v ∈ r.vertex, v.type = .output → ∃ w ∈ r.fragment, w.type = .input ∧
    w.name = v.name ∧ w.slot = v.slot ∧ w.slotCount = v.slotCount ∧
    ∀ u ∈ r.fragment, u.type = .input → u.name = v.name → u = w
  outputs_apart : ∀ v ∈ r.vertex, ∀ w ∈ r.vertex, v.type = .output → w.type = .output → v ≠ w →
    v.Apart w
  globals_same : ∀ v ∈ r.vertex ++ r.fragment, ∀ w ∈ r.vertex ++ r.fragment,
    v.isGlobal = true → w.isGlobal = true → v.name = w.name → v.slot = w.slot
  globals_apart : ∀ v ∈ r.vertex ++ r.fragment, ∀ w ∈ r.vertex ++ r.fragment,
    v.isGlobal = true → w.isGlobal = true → v.name ≠ w.name → v.Apart w
  listed_nodup : (r.program.uniforms.map Uniform.name).Nodup
  listed : ∀ n, n ∈ r.program.uniforms.map Uniform.name ↔
    ∃ v ∈ r.vertex ++ r.fragment, v.isGlobal = true ∧ v.name = n
  listed_slots : ∀ u ∈ r.program.uniforms, ∀ v ∈ r.vertex ++ r.fragment, v.isGlobal = true →
    v.name = u.name → v.slot = u.slot ∧ v.slotCount = u.slotCount
  end_le : ∀ v ∈ r.vertex ++ r.fragment, v.isGlobal = true →
    v.slot + v.slotCount ≤ r.program.uniformSlotCount
  end_eq : r.program.uniformSlotCount = 0 ∨ ∃ v ∈ r.vertex ++ r.fragment, v.isGlobal = true ∧
    v.slot + v.slotCount = r.program.uniformSlotCount

/-- A name without its other side. -/
def Unmatched (vertex fragment : List Var) : Prop :=
  (∃ v ∈ vertex, v.type = .output ∧ ∀ w ∈ fragment, w.type = .input → w.name ≠ v.name) ∨
  ∃ w ∈ fragment, w.type = .input ∧ ∀ v ∈ vertex, v.type = .output → v.name ≠ w.name

/-- Types that do not match. -/
def TypesDisagree (vertex fragment : List Var) : Prop :=
  (∃ v ∈ vertex, ∃ w ∈ fragment, v.type = .output ∧ w.type = .input ∧ v.name = w.name ∧
    v.slotCount ≠ w.slotCount) ∨
  ∃ v ∈ vertex ++ fragment, ∃ w ∈ vertex ++ fragment, v.isGlobal = true ∧ w.isGlobal = true ∧
    v.name = w.name ∧ v.slotCount ≠ w.slotCount

/-- Locations that do not match; a uniform needs one in one of the shaders only. -/
def LocationsDisagree (vertex fragment : List Var) : Prop :=
  (∃ v ∈ vertex, ∃ w ∈ fragment, v.type = .output ∧ w.type = .input ∧ v.name = w.name ∧
    v.slot ≠ w.slot) ∨
  ∃ v ∈ vertex ++ fragment, ∃ w ∈ vertex ++ fragment, v.isGlobal = true ∧ w.isGlobal = true ∧
    v.name = w.name ∧ v.slot ≠ noSlot ∧ w.slot ≠ noSlot ∧ v.slot ≠ w.slot

/-- The variables that share slots, in the order in which they are asked for, and how many slots
there are. -/
def spaces (vertex fragment : List Var) : List (ℕ × List Var) :=
  [(glMaxVertexAttribs, inOrder (hasType .input) vertex), (1, inOrder (hasType .output) fragment),
    (glMaxFragmentInputComponents, inOrder isVarying vertex),
    (glMaxVertexUniformComponents, globals vertex fragment)]

/-- Some way to place the variables. -/
def Fits (limit : ℕ) (vars : List Var) : Prop :=
  ∃ place : String → ℕ,
    (∀ v ∈ vars, place v.name + v.slotCount ≤ limit ∧ (v.slot ≠ noSlot → place v.name = v.slot)) ∧
    ∀ v ∈ vars, ∀ w ∈ vars, v.name ≠ w.name →
      place v.name + v.slotCount ≤ place w.name ∨ place w.name + w.slotCount ≤ place v.name

/-- A reason for which linking may fail. -/
def Excused (vertex fragment : List Var) : Prop :=
  Unmatched vertex fragment ∨ TypesDisagree vertex fragment ∨ LocationsDisagree vertex fragment ∨
    ∃ s ∈ spaces vertex fragment, ¬Fits s.1 s.2

/-- Linking keeps its promise. -/
def Sound (heap : ℕ → ℕ → BitVec 32) (vertex fragment : List Var) : Prop :=
  match programLink heap (some vertex) (some fragment) with
  | .ok r => Consistent vertex fragment r
  | .error _ => Excused vertex fragment

/-! ### Room -/

/-- Places of these sizes, each the first that is free. -/
def FirstFit (limit : ℕ) : Set ℕ → List ℕ → Prop
  | _, [] => True
  | used, size :: sizes =>
    ∃ s, IsLeast {i | i + size ≤ limit ∧ Free used i size} s ∧
      FirstFit limit (used ∪ Set.Ico s (s + size)) sizes

/-- The slots that the shaders give. -/
def given (vars : List Var) : Set ℕ :=
  {k | ∃ v ∈ vars, v.slot ≠ noSlot ∧ v.slot ≤ k ∧ k < v.slot + v.slotCount}

/-- No layout ends with the last slot, and for the other variables the first places that are free
are enough. -/
structure Roomy (limit : ℕ) (vars : List Var) : Prop where
  inside : ∀ v ∈ vars, v.slot ≠ noSlot → v.slot + v.slotCount < limit
  firstFit : FirstFit limit (given vars) ((vars.filter (!·.hasSlot)).map Var.slotCount)

section

variable {limit : ℕ} {place : String → ℕ} {used : Set ℕ} {v w : Var} {vars xs ys : List Var}

lemma exists_granted_iff (hn : (vars.map Var.name).Nodup) (hslot : ∀ v ∈ vars, v.slot = noSlot) :
    (∃ place, Granted limit place used vars) ↔
      FirstFit limit used (vars.map Var.slotCount) := by
  induction vars generalizing used with
  | nil => exact iff_of_true ⟨fun _ => 0, trivial⟩ trivial
  | cons v vars ih =>
    have hv := hslot v List.mem_cons_self
    have ih' := fun {used : Set ℕ} =>
      @ih used (nodup_tail hn) fun w hw => hslot w (List.mem_cons_of_mem _ hw)
    have hgrants : ∀ s, Grants limit used v.slot v.slotCount s ↔
        IsLeast {i | i + v.slotCount ≤ limit ∧ Free used i v.slotCount} s := by
      intro s
      rw [Grants, if_neg (not_not.mpr hv)]
    rw [List.map_cons, FirstFit]
    constructor
    · rintro ⟨place, hg, hrest⟩
      exact ⟨place v.name, (hgrants _).mp hg, ih'.mp ⟨place, hrest⟩⟩
    · rintro ⟨s, hs, hrest⟩
      obtain ⟨place, hplace⟩ := ih'.mpr hrest
      refine ⟨Function.update place v.name s, ?_, ?_⟩
      · rw [Function.update_self]
        exact (hgrants s).mpr hs
      · rw [Var.range, Function.update_self]
        exact granted_congr (update_name (not_mem_names hn)) hplace

lemma Granted.inside (h : Granted limit place used vars) :
    ∀ v ∈ vars, v.slot ≠ noSlot → v.slot + v.slotCount < limit := by
  induction vars generalizing used with
  | nil => exact fun v hv => absurd hv List.not_mem_nil
  | cons v vars ih =>
    intro w hw hslot
    rcases List.mem_cons.mp hw with rfl | hw
    · have hgrant := h.1
      rw [Grants, if_pos hslot] at hgrant
      rw [← hgrant.1]
      exact hgrant.2.1
    · exact ih h.2 w hw hslot

lemma granted_given (hn : (vars.map Var.name).Nodup) (hslot : ∀ v ∈ vars, v.slot ≠ noSlot)
    (hplace : ∀ v ∈ vars, place v.name = v.slot ∧ v.slot + v.slotCount < limit)
    (hapart : ∀ v ∈ vars, ∀ w ∈ vars, v.name ≠ w.name →
      place v.name + v.slotCount ≤ place w.name ∨ place w.name + w.slotCount ≤ place v.name)
    (hfree : ∀ v ∈ vars, Free used (place v.name) v.slotCount) :
    Granted limit place used vars := by
  induction vars generalizing used with
  | nil => trivial
  | cons v vars ih =>
    have hne := not_mem_names hn
    obtain ⟨hv, hend⟩ := hplace v List.mem_cons_self
    refine ⟨?_, ih (nodup_tail hn) (fun w hw => hslot w (List.mem_cons_of_mem _ hw))
      (fun w hw => hplace w (List.mem_cons_of_mem _ hw))
      (fun u hu w hw => hapart u (List.mem_cons_of_mem _ hu) w (List.mem_cons_of_mem _ hw))
      fun w hw k h1 h2 hk => ?_⟩
    · rw [Grants, if_pos (hslot v List.mem_cons_self)]
      exact ⟨hv, by omega, hfree v List.mem_cons_self⟩
    · rcases hk with hk | ⟨h3, h4⟩
      · exact hfree w (List.mem_cons_of_mem _ hw) k h1 h2 hk
      · have := hapart v List.mem_cons_self w (List.mem_cons_of_mem _ hw) (hne w hw).symm
        omega

lemma given_append (hx : ∀ v ∈ xs, v.slot ≠ noSlot) (hy : ∀ v ∈ ys, v.slot = noSlot)
    (hplace : ∀ v ∈ xs, place v.name = v.slot) : given (xs ++ ys) = taken place ∅ xs := by
  ext k
  simp only [given, taken, Set.mem_ofPred_eq, List.mem_append, Set.mem_empty_iff_false, false_or]
  constructor
  · rintro ⟨v, hv | hv, hslot, hk⟩
    · exact ⟨v, hv, by rw [Var.range, hplace v hv]; exact hk⟩
    · exact absurd (hy v hv) hslot
  · rintro ⟨v, hv, hk⟩
    rw [Var.range, hplace v hv] at hk
    exact ⟨v, .inl hv, hx v hv, hk⟩

lemma filter_append_slots (hx : ∀ v ∈ xs, v.slot ≠ noSlot) (hy : ∀ v ∈ ys, v.slot = noSlot) :
    (xs ++ ys).filter (!·.hasSlot) = ys := by
  rw [List.filter_append, List.filter_eq_nil_iff.mpr, List.filter_eq_self.mpr, List.nil_append]
  · intro v hv
    simp [Var.hasSlot, hy v hv]
  · intro v hv
    simp [Var.hasSlot, hx v hv]

lemma nodup_append_left (hn : ((xs ++ ys).map Var.name).Nodup) : (xs.map Var.name).Nodup := by
  rw [List.map_append] at hn
  exact hn.of_append_left

lemma nodup_append_right (hn : ((xs ++ ys).map Var.name).Nodup) : (ys.map Var.name).Nodup := by
  rw [List.map_append] at hn
  exact hn.of_append_right

lemma roomy_of_granted (hn : ((xs ++ ys).map Var.name).Nodup) (hx : ∀ v ∈ xs, v.slot ≠ noSlot)
    (hy : ∀ v ∈ ys, v.slot = noSlot) (hg : Granted limit place ∅ (xs ++ ys)) :
    Roomy limit (xs ++ ys) := by
  obtain ⟨hg₁, hg₂⟩ := granted_append.mp hg
  constructor
  case inside =>
    intro v hv hslot
    rcases List.mem_append.mp hv with hv | hv
    · exact hg₁.inside v hv hslot
    · exact absurd (hy v hv) hslot
  case firstFit =>
    rw [given_append hx hy fun v hv => (hg₁.bounds v hv).2.2 (hx v hv),
      filter_append_slots hx hy]
    exact (exists_granted_iff (nodup_append_right hn) hy).mp ⟨place, hg₂⟩

lemma granted_of_roomy (hn : ((xs ++ ys).map Var.name).Nodup) (hx : ∀ v ∈ xs, v.slot ≠ noSlot)
    (hy : ∀ v ∈ ys, v.slot = noSlot) (hfits : Fits limit (xs ++ ys))
    (hroomy : Roomy limit (xs ++ ys)) : ∃ place, Granted limit place ∅ (xs ++ ys) := by
  obtain ⟨place₁, hplace, hapart⟩ := hfits
  have hslot : ∀ v ∈ xs, place₁ v.name = v.slot :=
    fun v hv => (hplace v (List.mem_append_left _ hv)).2 (hx v hv)
  have hg₁ : Granted limit place₁ ∅ xs := by
    refine granted_given (nodup_append_left hn) hx (fun v hv => ⟨hslot v hv, ?_⟩)
      (fun v hv w hw => hapart v (List.mem_append_left _ hv) w (List.mem_append_left _ hw))
      fun v _ k _ _ hk => hk
    exact hroomy.inside v (List.mem_append_left _ hv) (hx v hv)
  have hfirst := hroomy.firstFit
  rw [given_append hx hy hslot, filter_append_slots hx hy] at hfirst
  obtain ⟨place₂, hg₂⟩ := (exists_granted_iff (nodup_append_right hn) hy).mpr hfirst
  have hnames : ∀ v ∈ xs, ∀ w ∈ ys, v.name ≠ w.name := by
    intro v hv w hw heq
    rw [List.map_append, List.nodup_append] at hn
    exact hn.2.2 _ (List.mem_map_of_mem hv) _ (List.mem_map_of_mem hw) heq
  obtain ⟨place, hp₁, hp₂⟩ := exists_places place₁ place₂ hnames
  refine ⟨place, granted_append.mpr ⟨granted_congr (fun v hv => (hp₁ v hv).symm) hg₁, ?_⟩⟩
  rw [taken_congr hp₁]
  exact granted_congr (fun v hv => (hp₂ v hv).symm) hg₂

/-- **Being granted slots** is having room, where the slots fit. -/
lemma exists_granted_inOrder {p : Var → Bool} (hn : (vars.map Var.name).Nodup)
    (hfits : Fits limit (inOrder p vars)) :
    (∃ place, Granted limit place ∅ (inOrder p vars)) ↔ Roomy limit (inOrder p vars) := by
  have hx : ∀ v ∈ vars.filter (inPass p true), v.slot ≠ noSlot := fun v hv =>
    hasSlot_iff.mp (inPass_iff.mp (List.mem_filter.mp hv).2).2
  have hy : ∀ v ∈ vars.filter (inPass p false), v.slot = noSlot := fun v hv => by
    have hslot := (inPass_iff.mp (List.mem_filter.mp hv).2).2
    by_contra hne
    rw [hasSlot_iff.mpr hne] at hslot
    cases hslot
  have hnames : ((inOrder p vars).map Var.name).Nodup := by
    rw [inOrder, List.map_append, List.nodup_append]
    refine ⟨hn.sublist (List.filter_sublist.map _), hn.sublist (List.filter_sublist.map _), ?_⟩
    intro a ha b hb heq
    obtain ⟨v, hv, rfl⟩ := List.mem_map.mp ha
    obtain ⟨w, hw, rfl⟩ := List.mem_map.mp hb
    exact inPass_names hn v hv w hw heq
  constructor
  · rintro ⟨place, hg⟩
    exact roomy_of_granted hnames hx hy hg
  · exact granted_of_roomy hnames hx hy hfits

lemma exists_granted_globals {vertex fragment : List Var}
    (hfits : Fits limit (globals vertex fragment)) :
    (∃ place, Granted limit place ∅ (globals vertex fragment)) ↔
      Roomy limit (globals vertex fragment) := by
  have hnames : ((globals vertex fragment).map Var.name).Nodup := nodup_newNames
  have heq : globals vertex fragment =
      newNames [] ((vertex ++ fragment).filter (inPass Var.isGlobal true)) ++
        newNames ((newNames [] ((vertex ++ fragment).filter (inPass Var.isGlobal true))).map
          Var.name) ((vertex ++ fragment).filter (inPass Var.isGlobal false)) := by
    rw [globals, inOrder, newNames_append, List.nil_append]
  rw [heq] at hfits hnames ⊢
  have hslot : ∀ {b : Bool} {seen : List String},
      ∀ v ∈ newNames seen ((vertex ++ fragment).filter (inPass Var.isGlobal b)),
        v.hasSlot = b := by
    intro b seen v hv
    exact (inPass_iff.mp (List.mem_filter.mp (mem_newNames hv).1).2).2
  have hx := fun v hv => hasSlot_iff.mp (@hslot true [] v hv)
  have hy : ∀ {seen : List String},
      ∀ v ∈ newNames seen ((vertex ++ fragment).filter (inPass Var.isGlobal false)),
        v.slot = noSlot := by
    intro seen v hv
    by_contra hne
    have := hslot v hv
    rw [hasSlot_iff.mpr hne] at this
    cases this
  constructor
  · rintro ⟨place, hg⟩
    exact roomy_of_granted hnames hx hy hg
  · exact granted_of_roomy hnames hx hy hfits

/-! ### Frames -/

lemma filter_map_assign {p sel : Var → Bool} {b : Bool}
    (hp : ∀ v : Var, p (v.assign sel place) = p v) (hsel : ∀ v, sel v = true → p v = false) :
    (vars.map (Var.assign sel place)).filter (inPass p b) = vars.filter (inPass p b) := by
  induction vars with
  | nil => rfl
  | cons v vars ih =>
    rw [List.map_cons]
    cases hv : sel v with
    | false =>
      rw [Var.assign_of_not hv]
      cases hin : inPass p b v with
      | false =>
        rw [List.filter_cons_of_neg (Bool.eq_false_iff.mp hin),
          List.filter_cons_of_neg (Bool.eq_false_iff.mp hin), ih]
      | true => rw [List.filter_cons_of_pos hin, List.filter_cons_of_pos hin, ih]
    | true =>
      have hno : ∀ u : Var, p u = false → ¬inPass p b u = true := by
        intro u hu hin
        rw [(inPass_iff.mp hin).1] at hu
        cases hu
      rw [List.filter_cons_of_neg (hno _ ((hp v).trans (hsel v hv))),
        List.filter_cons_of_neg (hno v (hsel v hv)), ih]

/-- Such a variable is one of the variables after the step if it was one before. -/
lemma mem_map_assign {sel : Var → Bool} (h : sel v = false) (hv : v ∈ vars) :
    v ∈ vars.map (Var.assign sel place) :=
  List.mem_map.mpr ⟨v, hv, Var.assign_of_not h⟩

lemma Keeps.rfl (v : Var) : Keeps v v := ⟨Eq.refl v, fun _ => Eq.refl _⟩

lemma Keeps.trans {u : Var} (h : Keeps v w) (h' : Keeps w u) : Keeps v u := by
  obtain ⟨h1, h2⟩ := h
  obtain ⟨h3, h4⟩ := h'
  refine ⟨?_, fun hne => ?_⟩
  · rw [h3, h1]
  · have hw := h2 hne
    rw [h4 (by rwa [hw]), hw]

lemma keeps_assign {sel : Var → Bool}
    (h : sel v = true → v.slot ≠ noSlot → place v.name = v.slot) :
    Keeps v (v.assign sel place) := by
  unfold Var.assign
  split_ifs with hsel
  · exact ⟨Eq.refl _, h hsel⟩
  · exact .rfl v

lemma forall₂_keeps {f : Var → Var} (h : ∀ v ∈ vars, Keeps v (f v)) :
    List.Forall₂ Keeps vars (vars.map f) := by
  rw [List.forall₂_map_right_iff]
  exact List.forall₂_same.mpr h

lemma Granted.apart_of_name (h : Granted limit place used vars) (hpos : ∀ v ∈ vars, 0 < v.slotCount)
    (hv : v ∈ vars) (hw : w ∈ vars) (hne : v.name ≠ w.name) :
    place v.name + v.slotCount ≤ place w.name ∨ place w.name + w.slotCount ≤ place v.name := by
  have : Std.Symm fun v w : Var =>
      place v.name + v.slotCount ≤ place w.name ∨ place w.name + w.slotCount ≤ place v.name :=
    ⟨fun _ _ => Or.symm⟩
  exact (h.apart hpos).forall hv hw fun heq => hne (heq ▸ Eq.refl _)

end

/-! ### All stages -/

/-- A vertex shader's variable after all stages. -/
def vertexVar (p₁ p₃ p₄ : String → ℕ) (v : Var) : Var :=
  ((v.assign (hasType .input) p₁).assign isVarying p₃).assign Var.isGlobal p₄

/-- A fragment shader's variable after all stages. -/
def fragmentVar (vertex : List Var) (p₂ p₃ p₄ : String → ℕ) (w : Var) : Var :=
  ((w.assign (inPass (hasType .output) false) p₂).assign (linkedAll vertex) p₃).assign
    Var.isGlobal p₄

/-- Where the variables of a linked program are. -/
structure Placed (vertex fragment : List Var) (p₁ p₂ p₃ p₄ : String → ℕ) (r : Linked) : Prop where
  vertex_eq : r.vertex = vertex.map (vertexVar p₁ p₃ p₄)
  fragment_eq : r.fragment = fragment.map (fragmentVar vertex p₂ p₃ p₄)
  inputs : Granted glMaxVertexAttribs p₁ ∅ (inOrder (hasType .input) vertex)
  varyings : Granted glMaxFragmentInputComponents p₃ ∅ (inOrder isVarying vertex)
  links : ∀ v ∈ vertex, v.type = .output → ∃ w ∈ fragment, Links v w
  listed : Listed r.program (globals vertex fragment) p₄
  granted : Granted glMaxVertexUniformComponents p₄ ∅ (globals vertex fragment)
  agree : ∀ v ∈ vertex ++ fragment, v.isGlobal = true →
    (v.slot ≠ noSlot → p₄ v.name = v.slot) ∧
    ∃ u ∈ globals vertex fragment, u.name = v.name ∧ u.slotCount = v.slotCount

section

variable {place : String → ℕ} {vertex fragment : List Var} {v w : Var}

lemma isVarying_iff : isVarying v = true ↔ v.type = .output ∨ v.type = .builtinPosition :=
  decide_eq_true_iff

lemma hasType_iff {type : VarType} : hasType type v = true ↔ v.type = type := decide_eq_true_iff

lemma isVarying_assign {sel : Var → Bool} : isVarying (v.assign sel place) = isVarying v := by
  rw [isVarying, isVarying, Var.assign_type]

lemma isGlobal_assign {sel : Var → Bool} : (v.assign sel place).isGlobal = v.isGlobal := by
  rw [Var.isGlobal, Var.isGlobal, Var.assign_type]

lemma not_isVarying_of_input (h : v.type = .input) : isVarying v = false := by
  rw [isVarying, h]
  rfl

lemma not_isGlobal_of_input (h : v.type = .input) : v.isGlobal = false := by
  rw [Var.isGlobal, h]
  rfl

lemma not_isGlobal_of_output (h : v.type = .output) : v.isGlobal = false := by
  rw [Var.isGlobal, h]
  rfl

lemma not_isGlobal_of_varying (h : isVarying v = true) : v.isGlobal = false := by
  rcases isVarying_iff.mp h with h | h
  · exact not_isGlobal_of_output h
  · rw [Var.isGlobal, h]
    rfl

lemma linkedAll_input (h : linkedAll vertex w = true) : w.type = .input :=
  (linkedAll_iff.mp h).1

lemma linkedAll_map_assign :
    linkedAll (vertex.map (Var.assign (hasType .input) place)) = linkedAll vertex := by
  funext w
  rw [Bool.eq_iff_iff, linkedAll_iff, linkedAll_iff]
  refine and_congr_right fun _ => ?_
  constructor
  · rintro ⟨v, hv, htype, hname⟩
    obtain ⟨u, hu, rfl⟩ := List.mem_map.mp hv
    rw [Var.assign_type] at htype
    rw [Var.assign_name] at hname
    exact ⟨u, hu, htype, hname⟩
  · rintro ⟨v, hv, htype, hname⟩
    refine ⟨_, List.mem_map_of_mem hv, ?_, ?_⟩
    · rwa [Var.assign_type]
    · rwa [Var.assign_name]

/-- Allocating the outputs of the fragment shader changes only those without a slot. -/
lemma allocateSlots_map {heap : ℕ → BitVec 32} {type : VarType} {maxSlots : ℕ} {vars : List Var}
    (hn : (fragment.map Var.name).Nodup)
    (hok : allocateSlots heap fragment type maxSlots = .ok vars) :
    ∃ place, vars = fragment.map (Var.assign (inPass (hasType type) false) place) := by
  obtain ⟨⟨vars₁, a₁⟩, h₁, hok⟩ := bind_eq_ok.mp hok
  obtain ⟨⟨vars₂, a₂⟩, h₂, hok⟩ := bind_eq_ok.mp hok
  cases hok
  rw [allocatePass_given h₁] at h₂
  exact allocatePass_map hn h₂

lemma inOrder_map_assign {p sel : Var → Bool} {vars : List Var}
    (hp : ∀ v : Var, p (v.assign sel place) = p v) (hsel : ∀ v, sel v = true → p v = false) :
    inOrder p (vars.map (Var.assign sel place)) = inOrder p vars := by
  rw [inOrder, inOrder, filter_map_assign hp hsel, filter_map_assign hp hsel]

lemma globals_map_assign {sel sel' : Var → Bool} {place' : String → ℕ}
    (hsel : ∀ v, sel v = true → v.isGlobal = false)
    (hsel' : ∀ v, sel' v = true → v.isGlobal = false) :
    globals (vertex.map (Var.assign sel place)) (fragment.map (Var.assign sel' place')) =
      globals vertex fragment := by
  rw [globals, globals, inOrder, inOrder, List.filter_append, List.filter_append,
    List.filter_append, List.filter_append, filter_map_assign (fun v => isGlobal_assign) hsel,
    filter_map_assign (fun v => isGlobal_assign) hsel',
    filter_map_assign (fun v => isGlobal_assign) hsel,
    filter_map_assign (fun v => isGlobal_assign) hsel']

lemma not_isGlobal_inPass {b : Bool} (h : inPass (hasType .output) b v = true) :
    v.isGlobal = false :=
  not_isGlobal_of_output (hasType_iff.mp (inPass_iff.mp h).1)

lemma Shader.small (shader : Shader) {limit : ℕ} (hlimit : 4 ≤ limit) :
    ∀ v ∈ shader.vars, Small limit v := by
  intro v hv
  obtain ⟨h1, h4⟩ := shader.counts v hv
  exact ⟨h1, by omega, by omega⟩

lemma small_assign {sel : Var → Bool} {limit : ℕ} (h : Small limit v) :
    Small limit (v.assign sel place) := by
  rw [Small, Var.assign_slotCount]
  exact h

lemma small_map_assign {sel : Var → Bool} {limit : ℕ} {vars : List Var}
    (h : ∀ v ∈ vars, Small limit v) : ∀ v ∈ vars.map (Var.assign sel place), Small limit v := by
  intro v hv
  obtain ⟨u, hu, rfl⟩ := List.mem_map.mp hv
  exact small_assign (h u hu)

/-- **A program that is linked** has all its variables placed. -/
lemma placed_of_link {heap : ℕ → ℕ → BitVec 32} {vertex fragment : Shader} {r : Linked}
    (hok : programLink heap (some vertex.vars) (some fragment.vars) = .ok r) :
    ∃ p₁ p₂ p₃ p₄, Placed vertex.vars fragment.vars p₁ p₂ p₃ p₄ r := by
  obtain ⟨V₁, h₁, hok⟩ := bind_eq_ok.mp hok
  obtain ⟨F₁, h₂, hok⟩ := bind_eq_ok.mp hok
  obtain ⟨⟨V₂, F₂⟩, h₃, hok⟩ := bind_eq_ok.mp hok
  obtain ⟨⟨V₃, F₃, l⟩, h₄, hok⟩ := bind_eq_ok.mp hok
  cases hok
  have hlimit : ∀ n ∈ [glMaxVertexAttribs, glMaxFragmentInputComponents,
      glMaxVertexUniformComponents], 4 ≤ n ∧ n < 2 ^ 32 := by decide
  obtain ⟨hi4, hi⟩ := hlimit glMaxVertexAttribs (by decide)
  obtain ⟨hv4, hv⟩ := hlimit glMaxFragmentInputComponents (by decide)
  obtain ⟨hu4, -⟩ := hlimit glMaxVertexUniformComponents (by decide)
  obtain ⟨p₁, rfl, hg₁⟩ := allocateSlots_ok hi (fun v hv _ => vertex.small hi4 v hv)
    vertex.nodup h₁
  obtain ⟨p₂, rfl⟩ := allocateSlots_map fragment.nodup h₂
  obtain ⟨p₃, hc⟩ := checkCompatibility_ok hv
    (fun v hv _ => small_map_assign (vertex.small hv4) v hv)
    (by rw [map_assign_name]; exact vertex.nodup) (by rw [map_assign_name]; exact fragment.nodup)
    h₃
  obtain ⟨p₄, hs⟩ := allocateGlobalSlots_ok (fun v hv _ => by
    rw [hc.outputs_eq, hc.inputs_eq] at hv
    rcases List.mem_append.mp hv with hv | hv
    · exact small_map_assign (small_map_assign (vertex.small hu4)) v hv
    · exact small_map_assign (small_map_assign (fragment.small hu4)) v hv) h₄
  have hinput : ∀ v : Var, hasType .input v = true → v.isGlobal = false :=
    fun v h => not_isGlobal_of_input (hasType_iff.mp h)
  have hglobals : globals V₂ F₂ = globals vertex.vars fragment.vars := by
    rw [hc.outputs_eq, hc.inputs_eq,
      globals_map_assign (fun v => not_isGlobal_of_varying)
        fun w h => not_isGlobal_of_input (linkedAll_input h),
      globals_map_assign hinput fun v => not_isGlobal_inPass]
  refine ⟨p₁, p₂, p₃, p₄, ?_, ?_, hg₁, ?_, ?_, hglobals ▸ hs.listed, hglobals ▸ hs.granted, ?_⟩
  · rw [hs.vertex_eq, hc.outputs_eq, List.map_map, List.map_map]
    rfl
  · rw [hs.fragment_eq, hc.inputs_eq, linkedAll_map_assign, List.map_map, List.map_map]
    rfl
  · have hgranted := hc.granted
    rwa [inOrder_map_assign (fun v => isVarying_assign)
      fun v h => not_isVarying_of_input (hasType_iff.mp h)] at hgranted
  · intro v hv houtput
    have hnot : hasType .input v = false := by
      rw [hasType, houtput]
      rfl
    obtain ⟨w, hw, hlinks⟩ := hc.links v (mem_map_assign hnot hv) houtput
    obtain ⟨u, hu, rfl⟩ := List.mem_map.mp hw
    have htype := hlinks.type
    rw [Var.assign_type] at htype
    rw [Var.assign_of_not] at hlinks
    · exact ⟨u, hu, hlinks⟩
    · refine Bool.eq_false_iff.mpr fun h => ?_
      have := hasType_iff.mp (inPass_iff.mp h).1
      rw [htype] at this
      cases this
  · intro v hv hglobal
    rw [← hglobals]
    refine hs.agree v ?_ hglobal
    rw [hc.outputs_eq, hc.inputs_eq]
    have hno : ∀ {sel : Var → Bool}, (∀ v, sel v = true → v.isGlobal = false) →
        sel v = false := by
      intro sel hsel
      refine Bool.eq_false_iff.mpr fun h => ?_
      rw [hsel v h] at hglobal
      cases hglobal
    rcases List.mem_append.mp hv with hv | hv
    · refine List.mem_append_left _ (mem_map_assign (hno fun v => not_isGlobal_of_varying) ?_)
      exact mem_map_assign (hno hinput) hv
    · refine List.mem_append_right _ (mem_map_assign (hno fun w h =>
        not_isGlobal_of_input (linkedAll_input h)) ?_)
      exact mem_map_assign (hno fun v => not_isGlobal_inPass) hv

variable {p₁ p₂ p₃ p₄ : String → ℕ}

lemma vertexVar_input (h : v.type = .input) :
    vertexVar p₁ p₃ p₄ v = { v with slot := p₁ v.name } := by
  have hvarying : isVarying ({ v with slot := p₁ v.name } : Var) = false :=
    not_isVarying_of_input h
  rw [vertexVar, Var.assign_of (hasType_iff.mpr h), Var.assign_of_not hvarying, Var.assign_of_not]
  exact not_isGlobal_of_input h

lemma vertexVar_varying (h : isVarying v = true) :
    vertexVar p₁ p₃ p₄ v = { v with slot := p₃ v.name } := by
  have hinput : hasType .input v = false := by
    refine Bool.eq_false_iff.mpr fun hi => ?_
    rw [not_isVarying_of_input (hasType_iff.mp hi)] at h
    cases h
  rw [vertexVar, Var.assign_of_not hinput, Var.assign_of h, Var.assign_of_not]
  exact not_isGlobal_of_varying h

lemma not_hasType_of_global {type : VarType} (h : v.isGlobal = true)
    (htype : type = .input ∨ type = .output) : hasType type v = false := by
  refine Bool.eq_false_iff.mpr fun hi => ?_
  rcases htype with rfl | rfl
  · rw [not_isGlobal_of_input (hasType_iff.mp hi)] at h
    cases h
  · rw [not_isGlobal_of_output (hasType_iff.mp hi)] at h
    cases h

lemma not_isVarying_of_global (h : v.isGlobal = true) : isVarying v = false := by
  refine Bool.eq_false_iff.mpr fun hv => ?_
  rw [not_isGlobal_of_varying hv] at h
  cases h

lemma vertexVar_global (h : v.isGlobal = true) :
    vertexVar p₁ p₃ p₄ v = { v with slot := p₄ v.name } := by
  rw [vertexVar, Var.assign_of_not (not_hasType_of_global h (.inl rfl)),
    Var.assign_of_not (not_isVarying_of_global h), Var.assign_of h]

lemma not_linkedAll_of_global (h : w.isGlobal = true) : linkedAll vertex w = false := by
  refine Bool.eq_false_iff.mpr fun hl => ?_
  rw [not_isGlobal_of_input (linkedAll_input hl)] at h
  cases h

lemma not_inPass_of_not {type : VarType} {b : Bool} (h : hasType type v = false) :
    inPass (hasType type) b v = false := by
  rw [inPass, h, Bool.false_and]

lemma fragmentVar_linked (h : linkedAll vertex w = true) :
    fragmentVar vertex p₂ p₃ p₄ w = { w with slot := p₃ w.name } := by
  have houtput : hasType .output w = false := by
    rw [hasType, linkedAll_input h]
    rfl
  rw [fragmentVar, Var.assign_of_not (not_inPass_of_not houtput), Var.assign_of h,
    Var.assign_of_not]
  exact not_isGlobal_of_input (linkedAll_input h)

lemma fragmentVar_global (h : w.isGlobal = true) :
    fragmentVar vertex p₂ p₃ p₄ w = { w with slot := p₄ w.name } := by
  rw [fragmentVar, Var.assign_of_not (not_inPass_of_not (not_hasType_of_global h (.inr rfl))),
    Var.assign_of_not (not_linkedAll_of_global h), Var.assign_of h]

@[simp] lemma vertexVar_name : (vertexVar p₁ p₃ p₄ v).name = v.name := by
  simp only [vertexVar, Var.assign_name]

@[simp] lemma vertexVar_type : (vertexVar p₁ p₃ p₄ v).type = v.type := by
  simp only [vertexVar, Var.assign_type]

@[simp] lemma fragmentVar_name : (fragmentVar vertex p₂ p₃ p₄ w).name = w.name := by
  simp only [fragmentVar, Var.assign_name]

@[simp] lemma fragmentVar_type : (fragmentVar vertex p₂ p₃ p₄ w).type = w.type := by
  simp only [fragmentVar, Var.assign_type]

variable {r : Linked}

namespace Placed

lemma keeps_vertex (h : Placed vertex fragment p₁ p₂ p₃ p₄ r) (hv : v ∈ vertex) :
    Keeps v (vertexVar p₁ p₃ p₄ v) := by
  by_cases hinput : v.type = .input
  · rw [vertexVar_input hinput]
    exact ⟨rfl, fun hne =>
      (h.inputs.bounds v (mem_inOrder.mpr ⟨hv, hasType_iff.mpr hinput⟩)).2.2 hne⟩
  · by_cases hvarying : isVarying v = true
    · rw [vertexVar_varying hvarying]
      exact ⟨rfl, fun hne => (h.varyings.bounds v (mem_inOrder.mpr ⟨hv, hvarying⟩)).2.2 hne⟩
    · have hglobal : v.isGlobal = true := by
        rw [isGlobal_iff]
        rw [isVarying_iff] at hvarying
        cases htype : v.type <;> simp_all
      rw [vertexVar_global hglobal]
      exact ⟨rfl, fun hne => (h.agree v (List.mem_append_left _ hv) hglobal).1 hne⟩

lemma keeps_fragment (h : Placed vertex fragment p₁ p₂ p₃ p₄ r)
    (hn : (fragment.map Var.name).Nodup) (hw : w ∈ fragment) :
    Keeps w (fragmentVar vertex p₂ p₃ p₄ w) := by
  by_cases hlinked : linkedAll vertex w = true
  · rw [fragmentVar_linked hlinked]
    refine ⟨rfl, fun hne => ?_⟩
    obtain ⟨-, v, hv, houtput, hname⟩ := linkedAll_iff.mp hlinked
    obtain ⟨u, hu, hlinks⟩ := h.links v hv houtput
    obtain rfl := eq_of_name hn hu hw (hlinks.name.trans hname)
    have hmem := mem_inOrder.mpr ⟨hv, isVarying_output houtput⟩
    dsimp only
    rw [← hname, ← hlinks.slot]
    exact (h.varyings.bounds v hmem).2.2 (by rwa [hlinks.slot])
  · by_cases hglobal : w.isGlobal = true
    · rw [fragmentVar_global hglobal]
      exact ⟨rfl, fun hne => (h.agree w (List.mem_append_right _ hw) hglobal).1 hne⟩
    · have hlinked' : linkedAll vertex (w.assign (inPass (hasType .output) false) p₂) = false := by
        refine Bool.eq_false_iff.mpr fun hl => hlinked ?_
        obtain ⟨htype, v, hv, houtput, hname⟩ := linkedAll_iff.mp hl
        rw [Var.assign_type] at htype
        rw [Var.assign_name] at hname
        exact linkedAll_iff.mpr ⟨htype, v, hv, houtput, hname⟩
      rw [fragmentVar, Var.assign_of_not hlinked', Var.assign_of_not]
      · refine keeps_assign fun hsel hne => absurd ?_ hne
        by_contra hslot
        have := (inPass_iff.mp hsel).2
        rw [hasSlot_iff.mpr hslot] at this
        cases this
      · rw [isGlobal_assign]
        exact Bool.eq_false_iff.mpr hglobal

lemma global_iff (h : Placed vertex fragment p₁ p₂ p₃ p₄ r) (x : Var) :
    x ∈ r.vertex ++ r.fragment ∧ x.isGlobal = true ↔
      ∃ v ∈ vertex ++ fragment, v.isGlobal = true ∧ x = { v with slot := p₄ v.name } := by
  rw [h.vertex_eq, h.fragment_eq]
  constructor
  · rintro ⟨hx, hglobal⟩
    rcases List.mem_append.mp hx with hx | hx
    · obtain ⟨v, hv, rfl⟩ := List.mem_map.mp hx
      have hv' : v.isGlobal = true := by
        rwa [Var.isGlobal, vertexVar_type] at hglobal
      exact ⟨v, List.mem_append_left _ hv, hv', vertexVar_global hv'⟩
    · obtain ⟨v, hv, rfl⟩ := List.mem_map.mp hx
      have hv' : v.isGlobal = true := by
        rwa [Var.isGlobal, fragmentVar_type] at hglobal
      exact ⟨v, List.mem_append_right _ hv, hv', fragmentVar_global hv'⟩
  · rintro ⟨v, hv, hglobal, rfl⟩
    refine ⟨?_, hglobal⟩
    rcases List.mem_append.mp hv with hv | hv
    · exact List.mem_append_left _ (List.mem_map.mpr ⟨v, hv, vertexVar_global hglobal⟩)
    · exact List.mem_append_right _ (List.mem_map.mpr ⟨v, hv, fragmentVar_global hglobal⟩)

end Placed

lemma mem_globals (h : v ∈ globals vertex fragment) :
    v ∈ vertex ++ fragment ∧ v.isGlobal = true :=
  mem_inOrder.mp (mem_newNames h).1

lemma Placed.consistent (h : Placed vertex fragment p₁ p₂ p₃ p₄ r)
    (hv : (vertex.map Var.name).Nodup) (hf : (fragment.map Var.name).Nodup)
    (hpos : ∀ v ∈ vertex ++ fragment, 0 < v.slotCount) : Consistent vertex fragment r := by
  have hvertex : ∀ x ∈ r.vertex, ∃ v ∈ vertex, x = vertexVar p₁ p₃ p₄ v := by
    intro x hx
    rw [h.vertex_eq] at hx
    obtain ⟨v, hv, rfl⟩ := List.mem_map.mp hx
    exact ⟨v, hv, rfl⟩
  have hposv := fun v hv => hpos v (List.mem_append_left _ hv)
  have hposg : ∀ v ∈ globals vertex fragment, 0 < v.slotCount :=
    fun v hv => hpos v (mem_globals hv).1
  constructor
  case vertex_kept =>
    rw [h.vertex_eq]
    exact forall₂_keeps fun v hv => h.keeps_vertex hv
  case fragment_kept =>
    rw [h.fragment_eq]
    exact forall₂_keeps fun w hw => h.keeps_fragment hf hw
  case inputs_inside =>
    intro x hx htype
    obtain ⟨v, hv, rfl⟩ := hvertex x hx
    rw [vertexVar_type] at htype
    rw [vertexVar_input htype]
    exact (h.inputs.bounds v (mem_inOrder.mpr ⟨hv, hasType_iff.mpr htype⟩)).1
  case inputs_apart =>
    intro x hx y hy hxt hyt hne
    obtain ⟨v, hv', rfl⟩ := hvertex x hx
    obtain ⟨w, hw, rfl⟩ := hvertex y hy
    rw [vertexVar_type] at hxt hyt
    rw [vertexVar_input hxt, vertexVar_input hyt]
    refine h.inputs.apart_of_name (fun u hu => hposv u (mem_inOrder.mp hu).1)
      (mem_inOrder.mpr ⟨hv', hasType_iff.mpr hxt⟩) (mem_inOrder.mpr ⟨hw, hasType_iff.mpr hyt⟩)
      fun heq => hne ?_
    rw [eq_of_name hv hv' hw heq]
  case paired =>
    intro x hx htype
    obtain ⟨v, hv', rfl⟩ := hvertex x hx
    rw [vertexVar_type] at htype
    obtain ⟨w, hw, hlinks⟩ := h.links v hv' htype
    have hl := linkedAll_iff.mpr ⟨hlinks.type, v, hv', htype, hlinks.name.symm⟩
    rw [vertexVar_varying (isVarying_output htype), h.fragment_eq]
    refine ⟨fragmentVar vertex p₂ p₃ p₄ w, List.mem_map_of_mem hw, ?_, ?_, ?_, ?_, ?_⟩
    · rw [fragmentVar_type, hlinks.type]
    · rw [fragmentVar_name, hlinks.name]
    · rw [fragmentVar_linked hl, hlinks.name]
    · rw [fragmentVar_linked hl]
      exact hlinks.slotCount
    · intro u hu _ hname
      obtain ⟨t, ht, rfl⟩ := List.mem_map.mp hu
      rw [fragmentVar_name] at hname
      rw [eq_of_name hf ht hw (hname.trans hlinks.name.symm)]
  case outputs_apart =>
    intro x hx y hy hxt hyt hne
    obtain ⟨v, hv', rfl⟩ := hvertex x hx
    obtain ⟨w, hw, rfl⟩ := hvertex y hy
    rw [vertexVar_type] at hxt hyt
    have hvv := isVarying_output hxt
    have hwv := isVarying_output hyt
    rw [vertexVar_varying hvv, vertexVar_varying hwv]
    refine h.varyings.apart_of_name (fun u hu => hposv u (mem_inOrder.mp hu).1)
      (mem_inOrder.mpr ⟨hv', hvv⟩) (mem_inOrder.mpr ⟨hw, hwv⟩) fun heq => hne ?_
    rw [eq_of_name hv hv' hw heq]
  case globals_same =>
    intro x hx y hy hxg hyg hname
    obtain ⟨v, -, -, rfl⟩ := (h.global_iff x).mp ⟨hx, hxg⟩
    obtain ⟨w, -, -, rfl⟩ := (h.global_iff y).mp ⟨hy, hyg⟩
    exact congrArg p₄ hname
  case globals_apart =>
    intro x hx y hy hxg hyg hname
    obtain ⟨v, hv', hvg, rfl⟩ := (h.global_iff x).mp ⟨hx, hxg⟩
    obtain ⟨w, hw, hwg, rfl⟩ := (h.global_iff y).mp ⟨hy, hyg⟩
    obtain ⟨-, u, hu, hun, huc⟩ := h.agree v hv' hvg
    obtain ⟨-, t, ht, htn, htc⟩ := h.agree w hw hwg
    have hapart := h.granted.apart_of_name hposg hu ht
      (fun heq => hname (hun.symm.trans (heq.trans htn)))
    rwa [hun, htn, huc, htc] at hapart
  case listed_nodup =>
    rw [h.listed.names]
    exact nodup_newNames
  case listed =>
    intro n
    rw [h.listed.names]
    constructor
    · intro hn
      obtain ⟨u, hu, rfl⟩ := List.mem_map.mp hn
      obtain ⟨hmem, hg⟩ := mem_globals hu
      obtain ⟨hx, hxg⟩ := (h.global_iff { u with slot := p₄ u.name }).mpr ⟨u, hmem, hg, rfl⟩
      exact ⟨_, hx, hxg, rfl⟩
    · rintro ⟨x, hx, hxg, rfl⟩
      obtain ⟨v, hv', hvg, rfl⟩ := (h.global_iff x).mp ⟨hx, hxg⟩
      obtain ⟨-, u, hu, hun, -⟩ := h.agree v hv' hvg
      exact hun ▸ List.mem_map_of_mem hu
  case listed_slots =>
    intro u hu x hx hxg hname
    obtain ⟨v, hv', hvg, rfl⟩ := (h.global_iff x).mp ⟨hx, hxg⟩
    obtain ⟨-, t, ht, htn, htc⟩ := h.agree v hv' hvg
    obtain ⟨t', ht', htn', hslot, htc'⟩ := h.listed.entry hu
    obtain rfl := eq_of_name nodup_newNames ht ht' (htn.trans (hname.trans htn'.symm))
    exact ⟨by rw [← htn, hslot], htc.symm.trans htc'⟩
  case end_le =>
    intro x hx hxg
    obtain ⟨v, hv', hvg, rfl⟩ := (h.global_iff x).mp ⟨hx, hxg⟩
    obtain ⟨-, u, hu, hun, huc⟩ := h.agree v hv' hvg
    have hle := h.listed.end_le u hu
    rwa [hun, huc] at hle
  case end_eq =>
    rcases h.listed.end_eq with h0 | ⟨u, hu, heq⟩
    · exact .inl h0
    · obtain ⟨hmem, hg⟩ := mem_globals hu
      obtain ⟨hx, hxg⟩ := (h.global_iff { u with slot := p₄ u.name }).mpr ⟨u, hmem, hg, rfl⟩
      exact .inr ⟨_, hx, hxg, heq⟩

end

/-! ### When it is kept -/

section

variable {heap : ℕ → ℕ → BitVec 32} {vertex fragment : Shader} {v w : Var}

lemma fits_of_not_excused (h : ¬Excused vertex.vars fragment.vars) :
    ∀ s ∈ spaces vertex.vars fragment.vars, Fits s.1 s.2 := by
  intro s hs
  by_contra hno
  exact h (.inr (.inr (.inr ⟨s, hs, hno⟩)))

lemma links_of_not_excused (h : ¬Excused vertex.vars fragment.vars) (hv : v ∈ vertex.vars)
    (houtput : v.type = .output) : ∃ w ∈ fragment.vars, Links v w := by
  have hmatched : ∃ w ∈ fragment.vars, w.type = .input ∧ w.name = v.name := by
    by_contra hno
    refine h (.inl (.inl ⟨v, hv, houtput, fun w hw htype hname => hno ⟨w, hw, htype, hname⟩⟩))
  obtain ⟨w, hw, htype, hname⟩ := hmatched
  refine ⟨w, hw, htype, hname, ?_, ?_⟩
  · by_contra hne
    refine h (.inr (.inl (.inl ⟨v, hv, w, hw, houtput, htype, hname.symm, Ne.symm hne⟩)))
  · by_contra hne
    exact h (.inr (.inr (.inl (.inl ⟨v, hv, w, hw, houtput, htype, hname.symm, hne⟩))))

lemma linked_of_not_excused (h : ¬Excused vertex.vars fragment.vars) (hw : w ∈ fragment.vars)
    (htype : w.type = .input) : ∃ v ∈ vertex.vars, v.type = .output ∧ v.name = w.name := by
  by_contra hno
  exact h (.inl (.inr ⟨w, hw, htype, fun v hv houtput hname => hno ⟨v, hv, houtput, hname⟩⟩))

lemma exists_count (h : ¬Excused vertex.vars fragment.vars) :
    ∃ count : String → ℕ, ∀ v ∈ vertex.vars ++ fragment.vars, v.isGlobal = true →
      v.slotCount = count v.name := by
  classical
  refine ⟨fun n => if hn : ∃ v ∈ vertex.vars ++ fragment.vars, v.isGlobal = true ∧ v.name = n then
    hn.choose.slotCount else 0, fun v hv hglobal => ?_⟩
  have hn : ∃ u ∈ vertex.vars ++ fragment.vars, u.isGlobal = true ∧ u.name = v.name :=
    ⟨v, hv, hglobal, rfl⟩
  obtain ⟨hu, hug, hname⟩ := hn.choose_spec
  dsimp only
  rw [dif_pos hn]
  by_contra hne
  exact h (.inr (.inl (.inr ⟨v, hv, _, hu, hglobal, hug, hname.symm, hne⟩)))

lemma slot_of_not_excused {limit : ℕ} {place : String → ℕ}
    (h : ¬Excused vertex.vars fragment.vars)
    (hg : Granted limit place ∅ (globals vertex.vars fragment.vars))
    (hv : v ∈ vertex.vars ++ fragment.vars) (hglobal : v.isGlobal = true)
    (hslot : v.slot ≠ noSlot) : place v.name = v.slot := by
  have hfirst : v ∈ (vertex.vars ++ fragment.vars).filter (inPass Var.isGlobal true) :=
    List.mem_filter.mpr ⟨hv, inPass_global.mpr ⟨hglobal, hasSlot_iff.mpr hslot⟩⟩
  rcases @exists_newNames v _ [] hfirst with hseen | ⟨u, hu, hname⟩
  · exact absurd hseen List.not_mem_nil
  · obtain ⟨hmem, hin⟩ := List.mem_filter.mp (mem_newNames hu).1
    obtain ⟨hug, hus⟩ := inPass_global.mp hin
    have hus' := hasSlot_iff.mp hus
    have hlist : u ∈ globals vertex.vars fragment.vars := by
      rw [globals, inOrder, newNames_append]
      exact List.mem_append_left _ hu
    rw [← hname, (hg.bounds u hlist).2.2 hus']
    by_contra hne
    exact h (.inr (.inr (.inl (.inr ⟨u, hmem, v, hv, hug, hglobal, hname, hus', hslot, hne⟩))))

lemma small_of_fits (h : Fits 1 (inOrder (hasType .output) fragment.vars)) :
    ∀ w ∈ fragment.vars, w.type = .output → Small 1 w := by
  intro w hw htype
  obtain ⟨place, hplace, -⟩ := h
  have hle := (hplace w (mem_inOrder.mpr ⟨hw, hasType_iff.mpr htype⟩)).1
  obtain ⟨h1, -⟩ := fragment.counts w hw
  exact ⟨h1, by omega, by omega⟩

lemma link_of_roomy (h : ¬Excused vertex.vars fragment.vars)
    (hroomy : ∀ s ∈ spaces vertex.vars fragment.vars, Roomy s.1 s.2) :
    ∃ r, programLink heap (some vertex.vars) (some fragment.vars) = .ok r := by
  have hfits := fits_of_not_excused h
  simp only [spaces, List.forall_mem_cons] at hfits hroomy
  obtain ⟨f₁, f₂, f₃, f₄, -⟩ := hfits
  obtain ⟨r₁, r₂, r₃, r₄, -⟩ := hroomy
  obtain ⟨p₁, g₁⟩ := (exists_granted_inOrder vertex.nodup f₁).mpr r₁
  obtain ⟨p₂, g₂⟩ := (exists_granted_inOrder fragment.nodup f₂).mpr r₂
  obtain ⟨p₃, g₃⟩ := (exists_granted_inOrder vertex.nodup f₃).mpr r₃
  obtain ⟨p₄, g₄⟩ := (exists_granted_globals f₄).mpr r₄
  obtain ⟨count, hcount⟩ := exists_count h
  have h₁ := @allocateSlots_of_granted _ p₁ _ .input (heap 0) (by decide : 16 < 2 ^ 32)
    (fun v hv _ => vertex.small (by decide) v hv) g₁
  have h₂ := @allocateSlots_of_granted _ p₂ _ .output (heap 1) (by decide : 1 < 2 ^ 32)
    (small_of_fits f₂) g₂
  have hnv : ((vertex.vars.map (Var.assign (hasType .input) p₁)).map Var.name).Nodup := by
    rw [map_assign_name]
    exact vertex.nodup
  have hnf : ((fragment.vars.map (Var.assign (hasType .output) p₂)).map Var.name).Nodup := by
    rw [map_assign_name]
    exact fragment.nodup
  have hsmall₁ := @small_map_assign p₁ (hasType .input) _ _
    (vertex.small (show 4 ≤ glMaxFragmentInputComponents by decide))
  -- a variable that the first stages leave alone
  have hback : ∀ {type : VarType} {place : String → ℕ} {vars : List Var} {v : Var},
      v ∈ vars.map (Var.assign (hasType type) place) → v.type ≠ type → v ∈ vars := by
    intro type place vars v hv hne
    obtain ⟨u, hu, rfl⟩ := List.mem_map.mp hv
    rw [Var.assign_type] at hne
    rwa [Var.assign_of_not (Bool.eq_false_iff.mpr fun ht => hne (hasType_iff.mp ht))]
  have hforth : ∀ {type : VarType} {place : String → ℕ} {vars : List Var} {v : Var},
      v ∈ vars → v.type ≠ type → v ∈ vars.map (Var.assign (hasType type) place) :=
    fun hv hne => mem_map_assign (Bool.eq_false_iff.mpr fun ht => hne (hasType_iff.mp ht)) hv
  obtain ⟨⟨V₂, F₂⟩, h₃⟩ := @checkCompatibility_of_granted _ p₃ _ _ (heap 2)
    (show glMaxFragmentInputComponents ≤ noSlot by decide) (fun v hv _ => hsmall₁ v hv) hnv hnf
    (by
      rw [inOrder_map_assign (fun v => isVarying_assign)
        fun v h => not_isVarying_of_input (hasType_iff.mp h)]
      exact g₃)
    (fun v hv houtput => by
      obtain ⟨w, hw, hlinks⟩ :=
        links_of_not_excused h (hback hv (by rw [houtput]; decide)) houtput
      exact ⟨w, hforth hw (by rw [hlinks.type]; decide), hlinks⟩)
    (fun w hw htype => by
      obtain ⟨v, hv, houtput, hname⟩ :=
        linked_of_not_excused h (hback hw (by rw [htype]; decide)) htype
      exact ⟨v, hforth hv (by rw [houtput]; decide), houtput, hname⟩)
  obtain ⟨p₃', hc⟩ := checkCompatibility_ok (by decide) (fun v hv _ => hsmall₁ v hv) hnv hnf h₃
  have hglobals : globals V₂ F₂ = globals vertex.vars fragment.vars := by
    rw [hc.outputs_eq, hc.inputs_eq,
      globals_map_assign (fun v => not_isGlobal_of_varying)
        fun w h => not_isGlobal_of_input (linkedAll_input h),
      globals_map_assign (fun v h => not_isGlobal_of_input (hasType_iff.mp h))
        fun v h => not_isGlobal_of_output (hasType_iff.mp h)]
  have hmem : ∀ v ∈ V₂ ++ F₂, v.isGlobal = true → v ∈ vertex.vars ++ fragment.vars := by
    intro v hv hglobal
    rw [hc.outputs_eq, hc.inputs_eq] at hv
    have hne : ∀ {type : VarType}, type = .input ∨ type = .output → v.type ≠ type :=
      fun htype heq => by
        have := not_hasType_of_global hglobal htype
        rw [hasType, heq] at this
        simp at this
    rcases List.mem_append.mp hv with hv | hv
    · obtain ⟨u, hu, rfl⟩ := List.mem_map.mp hv
      rw [isGlobal_assign] at hglobal
      rw [Var.assign_of_not (not_isVarying_of_global hglobal)] at hne ⊢
      exact List.mem_append_left _ (hback hu (hne (.inl rfl)))
    · obtain ⟨u, hu, rfl⟩ := List.mem_map.mp hv
      rw [isGlobal_assign] at hglobal
      rw [Var.assign_of_not (not_linkedAll_of_global hglobal)] at hne ⊢
      exact List.mem_append_right _ (hback hu (hne (.inr rfl)))
  obtain ⟨⟨V₃, F₃, l⟩, h₄⟩ := @allocateGlobalSlots_of_granted p₄ V₂ F₂ (heap 3) count
    (fun v hv hglobal => by
      rcases List.mem_append.mp (hmem v hv hglobal) with hv | hv
      · exact vertex.small (by decide) v hv
      · exact fragment.small (by decide) v hv)
    (hglobals ▸ g₄) (fun v hv hglobal => slot_of_not_excused h g₄ (hmem v hv hglobal) hglobal)
    fun v hv hglobal => hcount v (hmem v hv hglobal) hglobal
  exact ⟨_, bind_eq_ok.mpr ⟨_, h₁, bind_eq_ok.mpr ⟨_, h₂, bind_eq_ok.mpr ⟨_, h₃,
    bind_eq_ok.mpr ⟨_, h₄, rfl⟩⟩⟩⟩⟩

lemma roomy_of_link {r : Linked} (h : ¬Excused vertex.vars fragment.vars)
    (hok : programLink heap (some vertex.vars) (some fragment.vars) = .ok r) :
    ∀ s ∈ spaces vertex.vars fragment.vars, Roomy s.1 s.2 := by
  have hfits := fits_of_not_excused h
  obtain ⟨p₁, p₂, p₃, p₄, hplaced⟩ := placed_of_link hok
  obtain ⟨V₁, -, hok⟩ := bind_eq_ok.mp hok
  obtain ⟨F₁, h₂, -⟩ := bind_eq_ok.mp hok
  simp only [spaces, List.forall_mem_cons] at hfits ⊢
  obtain ⟨f₁, f₂, f₃, f₄, -⟩ := hfits
  obtain ⟨p, -, g₂⟩ := allocateSlots_ok (by decide) (small_of_fits f₂) fragment.nodup h₂
  exact ⟨(exists_granted_inOrder vertex.nodup f₁).mp ⟨p₁, hplaced.inputs⟩,
    (exists_granted_inOrder fragment.nodup f₂).mp ⟨p, g₂⟩,
    (exists_granted_inOrder vertex.nodup f₃).mp ⟨p₃, hplaced.varyings⟩,
    (exists_granted_globals f₄).mp ⟨p₄, hplaced.granted⟩, fun s hs => absurd hs List.not_mem_nil⟩

end

/-- **Linking keeps its promise** just when shaders without a reason to be refused have room. -/
theorem linkProgram_sound_iff (heap : ℕ → ℕ → BitVec 32) (vertex fragment : Shader) :
    Sound heap vertex.vars fragment.vars ↔
      (¬Excused vertex.vars fragment.vars →
        ∀ s ∈ spaces vertex.vars fragment.vars, Roomy s.1 s.2) := by
  unfold Sound
  cases hlink : programLink heap (some vertex.vars) (some fragment.vars) with
  | error e =>
    constructor
    · exact fun h hno => absurd h hno
    · intro hroomy
      by_contra hno
      obtain ⟨r, hr⟩ := link_of_roomy hno (hroomy hno)
      rw [hlink] at hr
      cases hr
  | ok r =>
    refine iff_of_true ?_ fun hno => roomy_of_link hno hlink
    obtain ⟨p₁, p₂, p₃, p₄, hplaced⟩ := placed_of_link hlink
    refine hplaced.consistent vertex.nodup fragment.nodup fun v hv => ?_
    rcases List.mem_append.mp hv with hv | hv
    · exact (vertex.counts v hv).1
    · exact (fragment.counts v hv).1

/-- A fragment shader with `layout(location=0) out vec4 color`. -/
def colorShader : Shader where
  vars := [⟨.output, 1, 0, "color"⟩]
  nodup := by decide
  counts := by decide

def emptyShader : Shader where
  vars := []
  nodup := by decide
  counts := by decide

/-- The only slot there is is refused. -/
theorem color_not_sound :
    ¬Sound (fun _ _ => 0) emptyShader.vars colorShader.vars := by
  have hlink : programLink (fun _ _ => 0) (some emptyShader.vars) (some colorShader.vars) =
      .error (.error (.unallocatableLayout "color")) := rfl
  rw [Sound, hlink]
  have hcolor : ∀ v ∈ colorShader.vars, v = ⟨.output, 1, 0, "color"⟩ :=
    fun v hv => List.mem_singleton.mp hv
  rintro ((⟨v, hv, -⟩ | ⟨w, hw, htype, -⟩) | (⟨v, hv, -⟩ | ⟨v, hv, -, -, hglobal, -⟩) |
    (⟨v, hv, -⟩ | ⟨v, hv, -, -, hglobal, -⟩) | ⟨s, hs, hno⟩)
  · exact absurd hv List.not_mem_nil
  · rw [hcolor w hw] at htype
    cases htype
  · exact absurd hv List.not_mem_nil
  · rw [hcolor v hv] at hglobal
    cases hglobal
  · exact absurd hv List.not_mem_nil
  · rw [hcolor v hv] at hglobal
    cases hglobal
  · refine hno ⟨fun _ => 0, ?_, ?_⟩
    · clear hno
      revert s
      decide
    · clear hno
      revert s
      decide

end KernelModel.Glsl
