import KernelModel.LinkerPasses

/-!
The outputs of the vertex shader and the inputs of the fragment shader.

An output goes with the one input that has its name. A pass succeeds just when every output of the
pass has such an input, with the same slots, and the outputs and the position are granted theirs.
-/

namespace KernelModel.Glsl

open Allocator

/-- An output and the input it is linked with. -/
structure Links (v w : Var) : Prop where
  type : w.type = .input
  name : w.name = v.name
  slotCount : w.slotCount = v.slotCount
  slot : v.slot = w.slot

lemma Links.hasSlot {v w : Var} (h : Links v w) : w.hasSlot = v.hasSlot := by
  rw [Var.hasSlot, Var.hasSlot, h.slot]

/-- The position is an output without an input. -/
def isVarying (v : Var) : Bool := v.type = .output ∨ v.type = .builtinPosition

def inputNamed (n : String) (w : Var) : Bool := w.type = .input ∧ w.name = n

/-- The inputs that go with one of the outputs of a pass. -/
def linked (b : Bool) (outputs : List Var) (w : Var) : Bool :=
  w.type = .input ∧ ∃ v ∈ outputs, v.type = .output ∧ v.hasSlot = b ∧ v.name = w.name

section

variable {limit s : ℕ} {place : String → ℕ} {used : Set ℕ} {b : Bool} {v w : Var}
  {outputs outputs' inputs inputs' : List Var} {a a' : Allocator}

lemma inputNamed_iff {n : String} : inputNamed n w = true ↔ w.type = .input ∧ w.name = n :=
  decide_eq_true_iff

lemma linked_iff : linked b outputs w = true ↔
    w.type = .input ∧ ∃ v ∈ outputs, v.type = .output ∧ v.hasSlot = b ∧ v.name = w.name :=
  decide_eq_true_iff

lemma map_assign_nobody {sel : Var → Bool} {vars : List Var}
    (h : ∀ v ∈ vars, sel v = false) : vars.map (Var.assign sel place) = vars := by
  conv_rhs => rw [← List.map_id vars]
  exact List.map_congr_left fun v hv => Var.assign_of_not (h v hv)

lemma linkOutput_ok (hn : (inputs.map Var.name).Nodup)
    (hok : linkOutput b v a inputs = .ok (s, inputs', a')) :
    (∃ w ∈ inputs, Links v w) ∧ reserveVar a v = .ok (s, a') ∧
      inputs' = inputs.map (Var.assign (inputNamed v.name) fun _ => s) := by
  induction inputs generalizing s inputs' a' with
  | nil => cases hok
  | cons w inputs ih =>
    have hname := not_mem_names hn
    rw [linkOutput] at hok
    split_ifs at hok with hother hcount hslot
    · obtain ⟨⟨s₁, inputs₁, a₁⟩, hrest, hok⟩ := bind_eq_ok.mp hok
      cases hok
      obtain ⟨⟨w', hw', hlinks⟩, hv, rfl⟩ := ih (nodup_tail hn) hrest
      refine ⟨⟨w', List.mem_cons_of_mem _ hw', hlinks⟩, hv, ?_⟩
      rw [List.map_cons, Var.assign_of_not]
      refine Bool.eq_false_iff.mpr fun h => ?_
      exact hname w' hw' (hlinks.name.trans (inputNamed_iff.mp h).2.symm)
    · obtain ⟨⟨s₁, a₁⟩, hv, hok⟩ := bind_eq_ok.mp hok
      cases hok
      simp only [not_or, not_not] at hother hcount hslot
      refine ⟨⟨w, List.mem_cons_self, hother.1, hother.2.2, hcount, hslot⟩, hv, ?_⟩
      rw [List.map_cons, Var.assign_of (inputNamed_iff.mpr ⟨hother.1, hother.2.2⟩)]
      congr 1
      refine (map_assign_nobody fun u hu => Bool.eq_false_iff.mpr fun h => ?_).symm
      exact hname u hu ((inputNamed_iff.mp h).2.trans hother.2.2.symm)

lemma linkOutput_of_links (hn : (inputs.map Var.name).Nodup) (hw : w ∈ inputs)
    (hlinks : Links v w) (hb : v.hasSlot = b) (hv : reserveVar a v = .ok (s, a')) :
    linkOutput b v a inputs =
      .ok (s, inputs.map (Var.assign (inputNamed v.name) fun _ => s), a') := by
  induction inputs with
  | nil => exact absurd hw List.not_mem_nil
  | cons u inputs ih =>
    have hname := not_mem_names hn
    rw [linkOutput]
    rcases List.mem_cons.mp hw with rfl | hw
    · have hslot : w.hasSlot = b := hlinks.hasSlot.trans hb
      rw [if_neg (by simp [hlinks.type, hslot, hlinks.name]), if_neg (not_not.mpr hlinks.slotCount),
        if_neg (not_not.mpr hlinks.slot), hv, List.map_cons,
        Var.assign_of (inputNamed_iff.mpr ⟨hlinks.type, hlinks.name⟩),
        map_assign_nobody fun u hu => Bool.eq_false_iff.mpr fun h => ?_]
      · rfl
      · exact hname u hu ((inputNamed_iff.mp h).2.trans hlinks.name.symm)
    · have hne : u.name ≠ v.name := fun heq => hname w hw (hlinks.name.trans heq.symm)
      rw [if_pos (.inr (.inr hne)), ih (nodup_tail hn) hw, List.map_cons, Var.assign_of_not]
      · rfl
      · exact Bool.eq_false_iff.mpr fun h => hne (inputNamed_iff.mp h).2

/-! ### A pass -/

lemma isVarying_output (h : v.type = .output) : isVarying v = true := decide_eq_true (.inl h)

lemma map_assign_linked (hv : v.type = .output) (hb : v.hasSlot = b)
    (hn : ∀ u ∈ outputs, u.name ≠ v.name) (hs : place v.name = s) :
    (inputs.map (Var.assign (inputNamed v.name) fun _ => s)).map
        (Var.assign (linked b outputs) place) =
      inputs.map (Var.assign (linked b (v :: outputs)) place) := by
  rw [List.map_map]
  refine List.map_congr_left fun w _ => ?_
  rw [Function.comp_apply]
  by_cases hw : w.type = .input ∧ w.name = v.name
  · have hlater : linked b outputs ({ w with slot := s } : Var) = false := by
      refine Bool.eq_false_iff.mpr fun h => ?_
      obtain ⟨-, u, hu, -, -, hname⟩ := linked_iff.mp h
      exact hn u hu (hname.trans hw.2)
    have hhead : linked b (v :: outputs) w = true :=
      linked_iff.mpr ⟨hw.1, v, List.mem_cons_self, hv, hb, hw.2.symm⟩
    rw [Var.assign_of (inputNamed_iff.mpr hw), Var.assign_of_not hlater, Var.assign_of hhead,
      hw.2, hs]
  · rw [Var.assign_of_not (Bool.eq_false_iff.mpr fun h => hw (inputNamed_iff.mp h))]
    unfold Var.assign
    refine if_congr ?_ rfl rfl
    rw [linked_iff, linked_iff]
    refine and_congr_right fun htype => ?_
    constructor
    · exact fun ⟨u, hu, h⟩ => ⟨u, List.mem_cons_of_mem _ hu, h⟩
    · rintro ⟨u, hu, h1, h2, h3⟩
      rcases List.mem_cons.mp hu with rfl | hu
      · exact absurd ⟨htype, h3.symm⟩ hw
      · exact ⟨u, hu, h1, h2, h3⟩

lemma linked_cons_of_not (h : ¬(v.type = .output ∧ v.hasSlot = b)) :
    linked b (v :: outputs) = linked b outputs := by
  funext w
  rw [Bool.eq_iff_iff, linked_iff, linked_iff]
  refine and_congr_right fun _ => ?_
  constructor
  · rintro ⟨u, hu, h1, h2, h3⟩
    rcases List.mem_cons.mp hu with rfl | hu
    · exact absurd ⟨h1, h2⟩ h
    · exact ⟨u, hu, h1, h2, h3⟩
  · exact fun ⟨u, hu, h⟩ => ⟨u, List.mem_cons_of_mem _ hu, h⟩

lemma map_assign_update {sel : Var → Bool} {vars : List Var} (hn : ∀ u ∈ vars, u.name ≠ v.name) :
    vars.map (Var.assign sel place) =
      vars.map (Var.assign sel (Function.update place v.name s)) :=
  List.map_congr_left fun u hu => Var.assign_congr (update_name hn u hu)

lemma range_update :
    v.range (Function.update place v.name s) = Set.Ico s (s + v.slotCount) := by
  rw [Var.range, Function.update_self]

lemma granted_cons {sel : Var → Bool} {vars : List Var} (hn : ∀ u ∈ vars, u.name ≠ v.name)
    (hsel : sel v = true) (hg : Grants limit used v.slot v.slotCount s)
    (hplace : Granted limit place (used ∪ Set.Ico s (s + v.slotCount)) (vars.filter sel)) :
    Granted limit (Function.update place v.name s) used ((v :: vars).filter sel) ∧
      taken (Function.update place v.name s) used ((v :: vars).filter sel) =
        taken place (used ∪ Set.Ico s (s + v.slotCount)) (vars.filter sel) := by
  have hfilter : ∀ w ∈ vars.filter sel, place w.name = Function.update place v.name s w.name :=
    fun w hw => update_name hn w (List.mem_filter.mp hw).1
  rw [List.filter_cons_of_pos hsel, taken_cons, range_update, ← taken_congr hfilter, Granted,
    range_update, Function.update_self]
  exact ⟨⟨hg, granted_congr hfilter hplace⟩, rfl⟩

/-- What a pass has done. -/
structure Checked (limit : ℕ) (used : Set ℕ) (b : Bool) (outputs inputs : List Var)
    (place : String → ℕ) (outputs' inputs' : List Var) (a' : Allocator) : Prop where
  outputs_eq : outputs' = outputs.map (Var.assign (inPass isVarying b) place)
  inputs_eq : inputs' = inputs.map (Var.assign (linked b outputs) place)
  granted : Granted limit place used (outputs.filter (inPass isVarying b))
  holds : Holds a' limit (taken place used (outputs.filter (inPass isVarying b)))
  links : ∀ v ∈ outputs, v.type = .output → v.hasSlot = b → ∃ w ∈ inputs, Links v w

lemma Checked.skip (h : Checked limit used b outputs inputs place outputs' inputs' a')
    (hin : inPass isVarying b v = false) :
    Checked limit used b (v :: outputs) inputs place (v :: outputs') inputs' a' := by
  have hnot : ¬(v.type = .output ∧ v.hasSlot = b) := by
    rintro ⟨h1, h2⟩
    rw [inPass_iff.mpr ⟨isVarying_output h1, h2⟩] at hin
    cases hin
  have hneg := Bool.eq_false_iff.mp hin
  constructor
  case outputs_eq => rw [List.map_cons, Var.assign_of_not hin, ← h.outputs_eq]
  case inputs_eq => rw [linked_cons_of_not hnot, ← h.inputs_eq]
  case granted =>
    rw [List.filter_cons_of_neg hneg]
    exact h.granted
  case holds =>
    rw [List.filter_cons_of_neg hneg]
    exact h.holds
  case links =>
    intro u hu h1 h2
    rcases List.mem_cons.mp hu with rfl | hu
    · exact absurd ⟨h1, h2⟩ hnot
    · exact h.links u hu h1 h2

lemma map_assign_linked_update (hn : ∀ u ∈ outputs, u.name ≠ v.name) :
    inputs.map (Var.assign (linked b outputs) place) =
      inputs.map (Var.assign (linked b outputs) (Function.update place v.name s)) := by
  refine List.map_congr_left fun w _ => ?_
  unfold Var.assign
  split_ifs with hw
  · obtain ⟨-, u, hu, -, -, hname⟩ := linked_iff.mp hw
    rw [Function.update_of_ne (hname ▸ hn u hu)]
  · rfl

lemma Checked.position
    (h : Checked limit (used ∪ Set.Ico s (s + v.slotCount)) b outputs inputs place outputs'
      inputs' a')
    (hn : ∀ u ∈ outputs, u.name ≠ v.name) (hin : inPass isVarying b v = true)
    (hv : v.type ≠ .output) (hg : Grants limit used v.slot v.slotCount s) :
    Checked limit used b (v :: outputs) inputs (Function.update place v.name s)
      ({ v with slot := s } :: outputs') inputs' a' := by
  obtain ⟨hcons, htaken⟩ := granted_cons hn hin hg h.granted
  have hnot : ¬(v.type = .output ∧ v.hasSlot = b) := fun h => hv h.1
  constructor
  case outputs_eq =>
    rw [List.map_cons, Var.assign_of hin, Function.update_self, ← map_assign_update hn,
      ← h.outputs_eq]
  case inputs_eq => rw [linked_cons_of_not hnot, ← map_assign_linked_update hn, ← h.inputs_eq]
  case granted => exact hcons
  case holds =>
    rw [htaken]
    exact h.holds
  case links =>
    intro u hu h1 h2
    rcases List.mem_cons.mp hu with rfl | hu
    · exact absurd ⟨h1, h2⟩ hnot
    · exact h.links u hu h1 h2

lemma links_of_linked (hn : ∀ u ∈ outputs, u.name ≠ v.name) {u : Var}
    (hu : u ∈ outputs)
    (h : ∃ w ∈ inputs.map (Var.assign (inputNamed v.name) fun _ => s), Links u w) :
    ∃ w ∈ inputs, Links u w := by
  obtain ⟨w', hw', huw⟩ := h
  obtain ⟨w, hw, rfl⟩ := List.mem_map.mp hw'
  have hname : w.name = u.name := by
    rw [← huw.name, Var.assign_name]
  have hsame : w.assign (inputNamed v.name) (fun _ => s) = w := by
    refine Var.assign_of_not (Bool.eq_false_iff.mpr fun h => ?_)
    exact hn u hu (hname.symm.trans (inputNamed_iff.mp h).2)
  rw [hsame] at huw
  exact ⟨w, hw, huw⟩

lemma Checked.output
    (h : Checked limit (used ∪ Set.Ico s (s + v.slotCount)) b outputs
      (inputs.map (Var.assign (inputNamed v.name) fun _ => s)) place outputs' inputs' a')
    (hn : ∀ u ∈ outputs, u.name ≠ v.name) (hv : v.type = .output) (hb : v.hasSlot = b)
    (hg : Grants limit used v.slot v.slotCount s) (hw : w ∈ inputs) (hvw : Links v w) :
    Checked limit used b (v :: outputs) inputs (Function.update place v.name s)
      ({ v with slot := s } :: outputs') inputs' a' := by
  have hin : inPass isVarying b v = true := inPass_iff.mpr ⟨isVarying_output hv, hb⟩
  obtain ⟨hcons, htaken⟩ := granted_cons hn hin hg h.granted
  constructor
  case outputs_eq =>
    rw [List.map_cons, Var.assign_of hin, Function.update_self, ← map_assign_update hn,
      ← h.outputs_eq]
  case inputs_eq =>
    rw [← map_assign_linked hv hb hn (Function.update_self ..), ← map_assign_linked_update hn,
      ← h.inputs_eq]
  case granted => exact hcons
  case holds =>
    rw [htaken]
    exact h.holds
  case links =>
    intro u hu h1 h2
    rcases List.mem_cons.mp hu with rfl | hu
    · exact ⟨w, hw, hvw⟩
    · exact links_of_linked hn hu (h.links u hu h1 h2)

lemma checkPass_ok (hlimit : limit < 2 ^ 32) (ha : Holds a limit used)
    (hsmall : ∀ v ∈ outputs, isVarying v = true → Small limit v)
    (hn : (outputs.map Var.name).Nodup) (hn' : (inputs.map Var.name).Nodup)
    (hok : checkPass b outputs inputs a = .ok (outputs', inputs', a')) :
    ∃ place, Checked limit used b outputs inputs place outputs' inputs' a' := by
  induction outputs generalizing a used inputs outputs' inputs' a' with
  | nil =>
    cases hok
    refine ⟨fun _ => 0, rfl, ?_, trivial, by rwa [List.filter_nil, taken_nil],
      fun v hv => absurd hv List.not_mem_nil⟩
    refine (map_assign_nobody fun w _ => Bool.eq_false_iff.mpr fun h => ?_).symm
    obtain ⟨-, v, hv, -⟩ := linked_iff.mp h
    exact List.not_mem_nil hv
  | cons v outputs ih =>
    have hsmall' := fun u hu => hsmall u (List.mem_cons_of_mem _ hu)
    have hne := not_mem_names hn
    rw [checkPass] at hok
    split_ifs at hok with hslot hposition houtput
    · obtain ⟨⟨vars₁, inputs₁, a₁⟩, hrest, hok⟩ := bind_eq_ok.mp hok
      cases hok
      obtain ⟨place, hchecked⟩ := ih ha hsmall' (nodup_tail hn) hn' hrest
      exact ⟨place, hchecked.skip (Bool.eq_false_iff.mpr fun h => hslot (inPass_iff.mp h).2)⟩
    · have hin : inPass isVarying b v = true :=
        inPass_iff.mpr ⟨decide_eq_true (.inr hposition), not_not.mp hslot⟩
      obtain ⟨⟨s, a₁⟩, hv, hok⟩ := bind_eq_ok.mp hok
      obtain ⟨⟨vars₁, inputs₁, a₂⟩, hrest, hok⟩ := bind_eq_ok.mp hok
      cases hok
      obtain ⟨hg, ha₁⟩ := reserveVar_ok ha hlimit
        (hsmall v List.mem_cons_self (inPass_iff.mp hin).1) hv
      obtain ⟨place, hchecked⟩ := ih ha₁ hsmall' (nodup_tail hn) hn' hrest
      refine ⟨_, hchecked.position hne hin (fun h => ?_) hg⟩
      rw [hposition] at h
      cases h
    · obtain ⟨⟨vars₁, inputs₁, a₁⟩, hrest, hok⟩ := bind_eq_ok.mp hok
      cases hok
      obtain ⟨place, hchecked⟩ := ih ha hsmall' (nodup_tail hn) hn' hrest
      refine ⟨place, hchecked.skip (Bool.eq_false_iff.mpr fun h => ?_)⟩
      rcases of_decide_eq_true (inPass_iff.mp h).1 with h | h
      · exact houtput h
      · exact hposition h
    · have hb := not_not.mp hslot
      have hv := not_not.mp houtput
      obtain ⟨⟨s, inputs₁, a₁⟩, hlink, hok⟩ := bind_eq_ok.mp hok
      obtain ⟨⟨vars₁, inputs₂, a₂⟩, hrest, hok⟩ := bind_eq_ok.mp hok
      cases hok
      obtain ⟨⟨w, hw, hvw⟩, hreserve, rfl⟩ := linkOutput_ok hn' hlink
      obtain ⟨hg, ha₁⟩ := reserveVar_ok ha hlimit
        (hsmall v List.mem_cons_self (isVarying_output hv)) hreserve
      obtain ⟨place, hchecked⟩ :=
        ih ha₁ hsmall' (nodup_tail hn) (by rwa [map_assign_name]) hrest
      exact ⟨_, hchecked.output hne hv hb hg hw hvw⟩

lemma checkPass_of_granted (hlimit : limit < 2 ^ 32) (ha : Holds a limit used)
    (hsmall : ∀ v ∈ outputs, isVarying v = true → Small limit v)
    (hn : (outputs.map Var.name).Nodup) (hn' : (inputs.map Var.name).Nodup)
    (hplace : Granted limit place used (outputs.filter (inPass isVarying b)))
    (hlinks : ∀ v ∈ outputs, v.type = .output → v.hasSlot = b → ∃ w ∈ inputs, Links v w) :
    ∃ outputs' inputs' a', checkPass b outputs inputs a = .ok (outputs', inputs', a') ∧
      Checked limit used b outputs inputs place outputs' inputs' a' := by
  induction outputs generalizing a used inputs with
  | nil =>
    refine ⟨[], inputs, a, rfl, rfl, ?_, trivial, by rwa [List.filter_nil, taken_nil],
      fun v hv => absurd hv List.not_mem_nil⟩
    refine (map_assign_nobody fun w _ => Bool.eq_false_iff.mpr fun h => ?_).symm
    obtain ⟨-, v, hv, -⟩ := linked_iff.mp h
    exact List.not_mem_nil hv
  | cons v outputs ih =>
    have hsmall' := fun u hu => hsmall u (List.mem_cons_of_mem _ hu)
    have hlinks' := fun u hu => hlinks u (List.mem_cons_of_mem _ hu)
    have hne := not_mem_names hn
    have hsame : Function.update place v.name (place v.name) = place :=
      Function.update_eq_self _ _
    rw [checkPass]
    by_cases hin : inPass isVarying b v = true
    · obtain ⟨hvarying, hb⟩ := inPass_iff.mp hin
      rw [List.filter_cons_of_pos hin] at hplace
      obtain ⟨a₁, hv, ha₁⟩ :=
        reserveVar_of_grants ha hlimit (hsmall v List.mem_cons_self hvarying) hplace.1
      rw [if_neg (not_not.mpr hb)]
      by_cases hposition : v.type = .builtinPosition
      · obtain ⟨outputs', inputs', a', hrest, hchecked⟩ :=
          ih ha₁ hsmall' (nodup_tail hn) hn' hplace.2 hlinks'
        refine ⟨{ v with slot := place v.name } :: outputs', inputs', a', ?_, ?_⟩
        · rw [if_pos hposition, hv]
          exact bind_eq_ok.mpr ⟨_, rfl, bind_eq_ok.mpr ⟨_, hrest, rfl⟩⟩
        · have hnot : v.type ≠ .output := fun h => by
            rw [hposition] at h
            cases h
          have hcons := hchecked.position hne hin hnot hplace.1
          rwa [hsame] at hcons
      · have houtput : v.type = .output := (of_decide_eq_true hvarying).resolve_right hposition
        obtain ⟨w, hw, hvw⟩ := hlinks v List.mem_cons_self houtput hb
        have hlink := linkOutput_of_links hn' hw hvw hb hv
        have hn₁ : ((inputs.map (Var.assign (inputNamed v.name) fun _ => place v.name)).map
            Var.name).Nodup := by
          rwa [map_assign_name]
        obtain ⟨outputs', inputs', a', hrest, hchecked⟩ :=
          ih ha₁ hsmall' (nodup_tail hn) hn₁ hplace.2 fun u hu h1 h2 => by
            obtain ⟨w', hw', huw⟩ := hlinks' u hu h1 h2
            have hkeep : w'.assign (inputNamed v.name) (fun _ => place v.name) = w' := by
              refine Var.assign_of_not (Bool.eq_false_iff.mpr fun h => ?_)
              exact hne u hu (huw.name.symm.trans (inputNamed_iff.mp h).2)
            exact ⟨w', List.mem_map.mpr ⟨w', hw', hkeep⟩, huw⟩
        refine ⟨{ v with slot := place v.name } :: outputs', inputs', a', ?_, ?_⟩
        · rw [if_neg hposition, if_neg (not_not.mpr houtput), hlink]
          exact bind_eq_ok.mpr ⟨_, rfl, bind_eq_ok.mpr ⟨_, hrest, rfl⟩⟩
        · have hcons := hchecked.output hne houtput hb hplace.1 hw hvw
          rwa [hsame] at hcons
    · rw [List.filter_cons_of_neg hin] at hplace
      obtain ⟨outputs', inputs', a', hrest, hchecked⟩ :=
        ih ha hsmall' (nodup_tail hn) hn' hplace hlinks'
      refine ⟨v :: outputs', inputs', a', ?_, hchecked.skip (Bool.eq_false_iff.mpr hin)⟩
      by_cases hb : v.hasSlot = b
      · have hno : ¬isVarying v = true := fun h => hin (inPass_iff.mpr ⟨h, hb⟩)
        rw [if_neg (not_not.mpr hb), if_neg fun h => hno (decide_eq_true (.inr h)),
          if_pos fun h => hno (isVarying_output h)]
        exact bind_eq_ok.mpr ⟨_, hrest, rfl⟩
      · rw [if_pos hb]
        exact bind_eq_ok.mpr ⟨_, hrest, rfl⟩

/-! ### Both passes -/

/-- The inputs that go with one of the outputs. -/
def linkedAll (outputs : List Var) (w : Var) : Bool :=
  w.type = .input ∧ ∃ v ∈ outputs, v.type = .output ∧ v.name = w.name

lemma linkedAll_iff : linkedAll outputs w = true ↔
    w.type = .input ∧ ∃ v ∈ outputs, v.type = .output ∧ v.name = w.name :=
  decide_eq_true_iff

lemma Checked.slot_of_linked
    (h : Checked limit used true outputs inputs place outputs' inputs' a')
    (hn' : (inputs.map Var.name).Nodup) (hw : w ∈ inputs) (hl : linked true outputs w = true) :
    place w.name = w.slot := by
  obtain ⟨-, v, hv, houtput, hslot, hname⟩ := linked_iff.mp hl
  obtain ⟨w', hw', hlinks⟩ := h.links v hv houtput hslot
  obtain rfl := eq_of_name hn' hw' hw (hlinks.name.trans hname)
  have hmem := List.mem_filter.mpr ⟨hv, inPass_iff.mpr ⟨isVarying_output houtput, hslot⟩⟩
  rw [← hname, ← hlinks.slot]
  exact (h.granted.bounds v hmem).2.2 (hasSlot_iff.mp hslot)

lemma Checked.given (h : Checked limit used true outputs inputs place outputs' inputs' a')
    (hn' : (inputs.map Var.name).Nodup) : outputs' = outputs ∧ inputs' = inputs := by
  constructor
  · rw [h.outputs_eq, map_assign_given h.granted]
  · rw [h.inputs_eq]
    conv_rhs => rw [← List.map_id inputs]
    exact List.map_congr_left fun w hw =>
      Var.assign_eq_self fun hl => h.slot_of_linked hn' hw hl

lemma checkInputs_iff :
    checkInputs inputs = .ok () ↔ ∀ w ∈ inputs, w.type = .input → w.hasSlot = true := by
  induction inputs with
  | nil => exact iff_of_true rfl fun w hw => absurd hw List.not_mem_nil
  | cons w inputs ih =>
    rw [checkInputs, List.forall_mem_cons, ← ih]
    split_ifs with h
    · exact (and_iff_right fun htype => h.resolve_left (not_not.mpr htype)).symm
    · refine iff_of_false (fun heq => by cases heq) fun hboth => h ?_
      by_cases htype : w.type = .input
      · exact .inr (hboth.1 htype)
      · exact .inl htype

/-- What both passes have done. -/
structure Compatible (limit : ℕ) (outputs inputs : List Var) (place : String → ℕ)
    (outputs' inputs' : List Var) : Prop where
  outputs_eq : outputs' = outputs.map (Var.assign isVarying place)
  inputs_eq : inputs' = inputs.map (Var.assign (linkedAll outputs) place)
  granted : Granted limit place ∅ (inOrder isVarying outputs)
  links : ∀ v ∈ outputs, v.type = .output → ∃ w ∈ inputs, Links v w

lemma Checked.both {place₁ place₂ : String → ℕ} {outputs₁ inputs₁ : List Var} {a₁ : Allocator}
    (hn : (outputs.map Var.name).Nodup) (hn' : (inputs.map Var.name).Nodup)
    (h₁ : Checked limit ∅ true outputs inputs place₁ outputs₁ inputs₁ a₁)
    (h₂ : Checked limit (taken place₁ ∅ (outputs.filter (inPass isVarying true))) false outputs
      inputs place₂ outputs' inputs' a') :
    ∃ place, Compatible limit outputs inputs place outputs' inputs' := by
  obtain ⟨place, hp₁, hp₂, hg⟩ := granted_both hn h₁.granted h₂.granted
  refine ⟨place, ?_, ?_, hg, fun v hv houtput => ?_⟩
  · rw [h₂.outputs_eq, ← map_assign_both (granted_append.mp hg).1]
    refine List.map_congr_left fun v hv => ?_
    unfold Var.assign
    split_ifs with hsel
    · rw [hp₂ v (List.mem_filter.mpr ⟨hv, hsel⟩)]
    · rfl
  · rw [h₂.inputs_eq]
    refine List.map_congr_left fun w hw => ?_
    unfold Var.assign
    by_cases hall : linkedAll outputs w = true
    · obtain ⟨htype, v, hv, houtput, hname⟩ := linkedAll_iff.mp hall
      have hin : ∀ {b}, v.hasSlot = b → v ∈ outputs.filter (inPass isVarying b) := fun hb =>
        List.mem_filter.mpr ⟨hv, inPass_iff.mpr ⟨isVarying_output houtput, hb⟩⟩
      rw [if_pos hall, ← hname]
      cases hslot : v.hasSlot with
      | false =>
        rw [if_pos (linked_iff.mpr ⟨htype, v, hv, houtput, hslot, hname⟩), hp₂ v (hin hslot)]
      | true =>
        have hl := linked_iff.mpr ⟨htype, v, hv, houtput, hslot, hname⟩
        rw [if_neg fun h => ?_, hp₁ v (hin hslot), hname, h₁.slot_of_linked hn' hw hl]
        obtain ⟨-, u, hu, -, hu', hname'⟩ := linked_iff.mp h
        obtain rfl := eq_of_name hn hu hv (hname'.trans hname.symm)
        rw [hslot] at hu'
        exact Bool.false_ne_true hu'.symm
    · rw [if_neg hall, if_neg fun h => hall ?_]
      obtain ⟨htype, v, hv, houtput, -, hname⟩ := linked_iff.mp h
      exact linkedAll_iff.mpr ⟨htype, v, hv, houtput, hname⟩
  · cases hslot : v.hasSlot with
    | false => exact h₂.links v hv houtput hslot
    | true => exact h₁.links v hv houtput hslot

lemma checkCompatibility_ok {heap : ℕ → BitVec 32} (hlimit : limit < 2 ^ 32)
    (hsmall : ∀ v ∈ outputs, isVarying v = true → Small limit v)
    (hn : (outputs.map Var.name).Nodup) (hn' : (inputs.map Var.name).Nodup)
    (hok : checkCompatibility heap outputs inputs limit = .ok (outputs', inputs')) :
    ∃ place, Compatible limit outputs inputs place outputs' inputs' := by
  obtain ⟨⟨outputs₁, inputs₁, a₁⟩, h₁, hok⟩ := bind_eq_ok.mp hok
  obtain ⟨⟨outputs₂, inputs₂, a₂⟩, h₂, hok⟩ := bind_eq_ok.mp hok
  obtain ⟨-, -, hok⟩ := bind_eq_ok.mp hok
  cases hok
  obtain ⟨place₁, hc₁⟩ := checkPass_ok hlimit (holds_init heap limit) hsmall hn hn' h₁
  obtain ⟨rfl, rfl⟩ := hc₁.given hn'
  obtain ⟨place₂, hc₂⟩ := checkPass_ok hlimit hc₁.holds hsmall hn hn' h₂
  exact hc₁.both hn hn' hc₂

lemma checkCompatibility_of_granted {heap : ℕ → BitVec 32} (hlimit : limit ≤ noSlot)
    (hsmall : ∀ v ∈ outputs, isVarying v = true → Small limit v)
    (hn : (outputs.map Var.name).Nodup) (hn' : (inputs.map Var.name).Nodup)
    (hplace : Granted limit place ∅ (inOrder isVarying outputs))
    (hlinks : ∀ v ∈ outputs, v.type = .output → ∃ w ∈ inputs, Links v w)
    (hlinked : ∀ w ∈ inputs, w.type = .input →
      ∃ v ∈ outputs, v.type = .output ∧ v.name = w.name) :
    ∃ r, checkCompatibility heap outputs inputs limit = .ok r := by
  have hlimit' : limit < 2 ^ 32 := lt_of_le_of_lt hlimit (by decide)
  obtain ⟨hg₁, hg₂⟩ := granted_append.mp hplace
  obtain ⟨outputs₁, inputs₁, a₁, h₁, hc₁⟩ :=
    checkPass_of_granted hlimit' (holds_init heap limit) hsmall hn hn' hg₁
      fun v hv houtput _ => hlinks v hv houtput
  obtain ⟨rfl, rfl⟩ := hc₁.given hn'
  obtain ⟨outputs₂, inputs₂, a₂, h₂, hc₂⟩ :=
    checkPass_of_granted hlimit' hc₁.holds hsmall hn hn' hg₂
      fun v hv houtput _ => hlinks v hv houtput
  obtain ⟨place', hcomp⟩ := hc₁.both hn hn' hc₂
  have hinputs : checkInputs inputs₂ = .ok () := by
    rw [checkInputs_iff, hcomp.inputs_eq]
    intro w' hw' htype
    obtain ⟨w, hw, rfl⟩ := List.mem_map.mp hw'
    rw [Var.assign_type] at htype
    obtain ⟨v, hv, houtput, hname⟩ := hlinked w hw htype
    have hmem := mem_inOrder.mpr ⟨hv, isVarying_output houtput⟩
    have hend := (hcomp.granted.bounds v hmem).1
    have hpos := (hsmall v hv (isVarying_output houtput)).1
    rw [Var.assign_of (linkedAll_iff.mpr ⟨htype, v, hv, houtput, hname⟩), hasSlot_iff, ← hname]
    dsimp only
    omega
  exact ⟨_, bind_eq_ok.mpr ⟨_, h₁, bind_eq_ok.mpr ⟨_, h₂, bind_eq_ok.mpr ⟨_, hinputs, rfl⟩⟩⟩⟩

end

end KernelModel.Glsl
