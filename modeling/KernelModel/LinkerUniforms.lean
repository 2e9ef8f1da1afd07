import KernelModel.LinkerPasses

/-!
Uniforms and samplers, which both shaders share.

The list has one entry for each name that a pass has met. A variable with a new name is granted
slots and gets an entry; any other must agree with the entry of its name, and takes its slots.
-/

namespace KernelModel.Glsl

open Allocator

/-- The first variables of each name that has not been seen. -/
def newNames : List String → List Var → List Var
  | _, [] => []
  | seen, v :: vars =>
    if v.name ∈ seen then newNames seen vars else v :: newNames (seen ++ [v.name]) vars

/-- The list of the uniforms, for the variables that it was made from. -/
structure Listed (l : LinkedProgram) (done : List Var) (place : String → ℕ) : Prop where
  entries : l.uniforms.map (fun u => (u.name, u.slot, u.slotCount)) =
    done.map fun v => (v.name, place v.name, v.slotCount)
  end_le : ∀ v ∈ done, place v.name + v.slotCount ≤ l.uniformSlotCount
  end_eq : l.uniformSlotCount = 0 ∨
    ∃ v ∈ done, place v.name + v.slotCount = l.uniformSlotCount

/-- The list and the bitmap between two steps. -/
structure Tracks (limit : ℕ) (done : List Var) (place : String → ℕ) (l : LinkedProgram)
    (a : Allocator) : Prop where
  listed : Listed l done place
  granted : Granted limit place ∅ done
  holds : Holds a limit (taken place ∅ done)

section

variable {limit s : ℕ} {place place' : String → ℕ} {b : Bool} {v w : Var}
  {done vars vars' xs ys : List Var} {seen : List String} {a a' : Allocator}
  {l l' : LinkedProgram}

lemma newNames_append : newNames seen (xs ++ ys) =
    newNames seen xs ++ newNames (seen ++ (newNames seen xs).map Var.name) ys := by
  induction xs generalizing seen with
  | nil => simp [newNames]
  | cons x xs ih =>
    rw [List.cons_append, newNames, newNames]
    split_ifs with hx
    · exact ih
    · rw [ih, List.cons_append, List.map_cons, List.append_assoc, List.singleton_append]

lemma mem_newNames (h : v ∈ newNames seen vars) : v ∈ vars ∧ v.name ∉ seen := by
  induction vars generalizing seen with
  | nil => exact absurd h List.not_mem_nil
  | cons x xs ih =>
    rw [newNames] at h
    split_ifs at h with hx
    · obtain ⟨hv, hseen⟩ := ih h
      exact ⟨List.mem_cons_of_mem _ hv, hseen⟩
    · rcases List.mem_cons.mp h with rfl | h
      · exact ⟨List.mem_cons_self, hx⟩
      · obtain ⟨hv, hseen⟩ := ih h
        exact ⟨List.mem_cons_of_mem _ hv, fun hmem => hseen (List.mem_append_left _ hmem)⟩

lemma exists_newNames (h : v ∈ vars) :
    v.name ∈ seen ∨ ∃ u ∈ newNames seen vars, u.name = v.name := by
  induction vars generalizing seen with
  | nil => exact absurd h List.not_mem_nil
  | cons x xs ih =>
    rw [newNames]
    split_ifs with hx
    · rcases List.mem_cons.mp h with rfl | h
      · exact .inl hx
      · exact ih h
    · rcases List.mem_cons.mp h with rfl | h
      · exact .inr ⟨v, List.mem_cons_self, rfl⟩
      · rcases @ih (seen ++ [x.name]) h with hseen | ⟨u, hu, hname⟩
        · rcases List.mem_append.mp hseen with hseen | hseen
          · exact .inl hseen
          · exact .inr ⟨x, List.mem_cons_self, (List.mem_singleton.mp hseen).symm⟩
        · exact .inr ⟨u, List.mem_cons_of_mem _ hu, hname⟩

lemma nodup_newNames : ((newNames seen vars).map Var.name).Nodup := by
  induction vars generalizing seen with
  | nil => exact List.nodup_nil
  | cons x xs ih =>
    rw [newNames]
    split_ifs with hx
    · exact ih
    · rw [List.map_cons, List.nodup_cons]
      refine ⟨fun hmem => ?_, ih⟩
      obtain ⟨u, hu, hname⟩ := List.mem_map.mp hmem
      refine (mem_newNames hu).2 (List.mem_append_right _ ?_)
      rw [hname]
      exact List.mem_singleton_self _

/-! ### The list -/

lemma Listed.names (h : Listed l done place) :
    l.uniforms.map Uniform.name = done.map Var.name := by
  have hmap := congrArg (List.map Prod.fst) h.entries
  rwa [List.map_map, List.map_map] at hmap

lemma Listed.entry (h : Listed l done place) {u : Uniform} (hu : u ∈ l.uniforms) :
    ∃ v ∈ done, v.name = u.name ∧ place v.name = u.slot ∧ v.slotCount = u.slotCount := by
  have hmem := List.mem_map_of_mem (f := fun u : Uniform => (u.name, u.slot, u.slotCount)) hu
  rw [h.entries] at hmem
  obtain ⟨v, hv, heq⟩ := List.mem_map.mp hmem
  simp only [Prod.mk.injEq] at heq
  exact ⟨v, hv, heq.1, heq.2.1, heq.2.2⟩

lemma Listed.find (h : Listed l done place) (n : String) :
    (l.uniforms.find? (·.name = n) = none ∧ n ∉ done.map Var.name) ∨
    ∃ u, l.uniforms.find? (·.name = n) = some u ∧ u.slot = place n ∧
      ∃ v ∈ done, v.name = n ∧ v.slotCount = u.slotCount := by
  cases hfind : l.uniforms.find? (·.name = n) with
  | none =>
    refine .inl ⟨rfl, fun hmem => ?_⟩
    rw [← h.names] at hmem
    obtain ⟨u, hu, hname⟩ := List.mem_map.mp hmem
    have := List.find?_eq_none.mp hfind u hu
    simp [hname] at this
  | some u =>
    have hname : u.name = n := by simpa using List.find?_some hfind
    obtain ⟨v, hv, h1, h2, h3⟩ := h.entry (List.mem_of_find?_eq_some hfind)
    refine .inr ⟨u, rfl, ?_, v, hv, h1.trans hname, h3⟩
    rw [← h2, h1, hname]

lemma Listed.congr (h : Listed l done place) (hp : ∀ v ∈ done, place v.name = place' v.name) :
    Listed l done place' := by
  refine ⟨?_, fun v hv => ?_, ?_⟩
  · rw [h.entries]
    exact List.map_congr_left fun v hv => by rw [hp v hv]
  · rw [← hp v hv]
    exact h.end_le v hv
  · rcases h.end_eq with h0 | ⟨v, hv, heq⟩
    · exact .inl h0
    · exact .inr ⟨v, hv, by rw [← hp v hv, heq]⟩

lemma Tracks.congr (h : Tracks limit done place l a)
    (hp : ∀ v ∈ done, place v.name = place' v.name) : Tracks limit done place' l a :=
  ⟨h.listed.congr hp, granted_congr hp h.granted, by
    rw [← taken_congr hp]
    exact h.holds⟩

lemma Listed.push (h : Listed l done place) (samplerIndex : ℕ) :
    Listed (l.push v (place v.name) samplerIndex) (done ++ [v]) place := by
  constructor
  case entries =>
    simp only [LinkedProgram.push, List.map_append, h.entries, List.map_cons, List.map_nil]
  case end_le =>
    intro w hw
    simp only [LinkedProgram.push]
    rcases List.mem_append.mp hw with hw | hw
    · have := h.end_le w hw
      split_ifs <;> omega
    · rw [List.mem_singleton.mp hw]
      split_ifs <;> omega
  case end_eq =>
    simp only [LinkedProgram.push]
    split_ifs with hgt
    · exact .inr ⟨v, List.mem_append_right _ (List.mem_singleton_self _), rfl⟩
    · rcases h.end_eq with h0 | ⟨w, hw, heq⟩
      · exact .inl h0
      · exact .inr ⟨w, List.mem_append_left _ hw, heq⟩

lemma Tracks.push (h : Tracks limit done place l a) (samplerIndex : ℕ)
    (hg : Grants limit (taken place ∅ done) v.slot v.slotCount (place v.name))
    (ha : Holds a' limit (taken place ∅ done ∪ v.range place)) :
    Tracks limit (done ++ [v]) place (l.push v (place v.name) samplerIndex) a' := by
  refine ⟨h.listed.push samplerIndex, granted_append.mpr ⟨h.granted, hg, trivial⟩, ?_⟩
  rwa [taken_append, taken_cons, taken_nil]

/-! ### A pass -/

lemma isGlobal_iff : v.isGlobal = true ↔ v.type = .uniform ∨ v.type = .sampler :=
  decide_eq_true_iff

/-- What a pass over one shader has done. -/
structure Allotted (limit : ℕ) (b : Bool) (done vars : List Var) (place : String → ℕ)
    (vars' : List Var) (l' : LinkedProgram) (a' : Allocator) : Prop where
  vars_eq : vars' = vars.map (Var.assign (inPass Var.isGlobal b) place)
  tracks : Tracks limit
    (done ++ newNames (done.map Var.name) (vars.filter (inPass Var.isGlobal b))) place l' a'
  agree : ∀ v ∈ vars, inPass Var.isGlobal b v = true →
    (v.slot ≠ noSlot → place v.name = v.slot) ∧
    ∃ u ∈ done ++ newNames (done.map Var.name) (vars.filter (inPass Var.isGlobal b)),
      u.name = v.name ∧ u.slotCount = v.slotCount

lemma Allotted.skip (h : Allotted limit b done vars place vars' l' a')
    (hin : inPass Var.isGlobal b v = false) :
    Allotted limit b done (v :: vars) place (v :: vars') l' a' := by
  have hneg := Bool.eq_false_iff.mp hin
  constructor
  case vars_eq => rw [List.map_cons, Var.assign_of_not hin, ← h.vars_eq]
  case tracks =>
    rw [List.filter_cons_of_neg hneg]
    exact h.tracks
  case agree =>
    rw [List.filter_cons_of_neg hneg]
    intro u hu hsel
    rcases List.mem_cons.mp hu with rfl | hu
    · exact absurd hsel hneg
    · exact h.agree u hu hsel

lemma Allotted.found (h : Allotted limit b done vars place vars' l' a')
    (hin : inPass Var.isGlobal b v = true) (hslot : v.slot ≠ noSlot → place v.name = v.slot)
    (hw : w ∈ done) (hname : w.name = v.name) (hcount : w.slotCount = v.slotCount) :
    Allotted limit b done (v :: vars) place ({ v with slot := place v.name } :: vars') l' a' := by
  have hseen : v.name ∈ done.map Var.name := hname ▸ List.mem_map_of_mem hw
  have hnew : newNames (done.map Var.name) ((v :: vars).filter (inPass Var.isGlobal b)) =
      newNames (done.map Var.name) (vars.filter (inPass Var.isGlobal b)) := by
    rw [List.filter_cons_of_pos hin, newNames, if_pos hseen]
  constructor
  case vars_eq => rw [List.map_cons, Var.assign_of hin, ← h.vars_eq]
  case tracks =>
    rw [hnew]
    exact h.tracks
  case agree =>
    rw [hnew]
    intro u hu hsel
    rcases List.mem_cons.mp hu with rfl | hu
    · exact ⟨hslot, w, List.mem_append_left _ hw, hname, hcount⟩
    · exact h.agree u hu hsel

lemma Allotted.first (h : Allotted limit b (done ++ [v]) vars place vars' l' a')
    (hin : inPass Var.isGlobal b v = true) (hslot : v.slot ≠ noSlot → place v.name = v.slot)
    (hnew : v.name ∉ done.map Var.name) :
    Allotted limit b done (v :: vars) place ({ v with slot := place v.name } :: vars') l' a' := by
  have heq : done ++ newNames (done.map Var.name)
        ((v :: vars).filter (inPass Var.isGlobal b)) =
      done ++ [v] ++ newNames ((done ++ [v]).map Var.name)
        (vars.filter (inPass Var.isGlobal b)) := by
    rw [List.filter_cons_of_pos hin, newNames, if_neg hnew, List.append_assoc,
      List.singleton_append, List.map_append, List.map_singleton]
  constructor
  case vars_eq => rw [List.map_cons, Var.assign_of hin, ← h.vars_eq]
  case tracks =>
    rw [heq]
    exact h.tracks
  case agree =>
    rw [heq]
    intro u hu hsel
    rcases List.mem_cons.mp hu with rfl | hu
    · refine ⟨hslot, u, List.mem_append_left _ (List.mem_append_right _ ?_), rfl, rfl⟩
      exact List.mem_singleton_self _
    · exact h.agree u hu hsel

lemma Allotted.nil (h : Tracks limit done place l a) :
    Allotted limit b done [] place [] l a := by
  refine ⟨rfl, ?_, fun v hv => absurd hv List.not_mem_nil⟩
  rwa [List.filter_nil, newNames, List.append_nil]

lemma inPass_global : inPass Var.isGlobal b v = true ↔ v.isGlobal = true ∧ v.hasSlot = b :=
  inPass_iff

lemma globalPass_ok {samplerIndex : ℕ} (hlimit : limit < 2 ^ 32)
    (hsmall : ∀ v ∈ vars, v.isGlobal = true → Small limit v) (ht : Tracks limit done place l a)
    (hok : globalPass b vars samplerIndex l a = .ok (vars', l', a')) :
    ∃ place', (∀ v ∈ done, place' v.name = place v.name) ∧
      Allotted limit b done vars place' vars' l' a' := by
  induction vars generalizing samplerIndex l a done place vars' with
  | nil =>
    cases hok
    exact ⟨place, fun _ _ => rfl, .nil ht⟩
  | cons v vars ih =>
    have hsmall' := fun w hw => hsmall w (List.mem_cons_of_mem _ hw)
    rw [globalPass] at hok
    dsimp only at hok
    generalize samplerIndex + (if v.type = .sampler then 1 else 0) = nextIndex at hok
    by_cases hsel : v.isGlobal = true ∧ v.hasSlot = b
    · rw [if_pos hsel] at hok
      have hin := inPass_global.mpr hsel
      rcases ht.listed.find v.name with ⟨hnone, hnew⟩ | ⟨u, hsome, hu, w, hw, hname, hcount⟩
      · rw [hnone] at hok
        obtain ⟨⟨s, a₁⟩, hv, hok⟩ := bind_eq_ok.mp hok
        obtain ⟨⟨vars₁, l₁, a₂⟩, hrest, hok⟩ := bind_eq_ok.mp hok
        cases hok
        obtain ⟨hg, ha₁⟩ := reserveVar_ok ht.holds hlimit (hsmall v List.mem_cons_self hsel.1) hv
        -- the place of the new name
        have hold : ∀ w ∈ done, place w.name = Function.update place v.name s w.name :=
          fun w hw => (Function.update_of_ne
            (fun h : w.name = v.name => hnew (h ▸ List.mem_map_of_mem hw)) _ _).symm
        have hself : Function.update place v.name s v.name = s := Function.update_self ..
        have ht₁ : Tracks limit (done ++ [v]) (Function.update place v.name s)
            (l.push v s samplerIndex) a₁ := by
          have hpush := @Tracks.push limit (Function.update place v.name s) v done a a₁ l
            (ht.congr hold) samplerIndex
          rw [hself, Var.range, hself, ← taken_congr hold] at hpush
          exact hpush hg ha₁
        obtain ⟨place', hp, hallot⟩ := ih hsmall' ht₁ hrest
        have hs : place' v.name = s := by
          rw [hp v (List.mem_append_right _ (List.mem_singleton_self v)), hself]
        refine ⟨place', fun w hw => ?_, ?_⟩
        · rw [hp w (List.mem_append_left _ hw), hold w hw]
        · rw [← hs]
          exact hallot.first hin (fun hne => hs.trans (hg.bounds.2.2 hne)) hnew
      · rw [hsome] at hok
        dsimp only at hok
        split_ifs at hok with hlayout htype
        obtain ⟨⟨vars₁, l₁, a₁⟩, hrest, hok⟩ := bind_eq_ok.mp hok
        cases hok
        obtain ⟨place', hp, hallot⟩ := ih hsmall' ht hrest
        have hplace : place' v.name = u.slot := by
          rw [← hname, hp w hw, hname, hu]
        refine ⟨place', hp, ?_⟩
        rw [← hplace]
        refine hallot.found hin (fun hne => ?_) hw hname ?_
        · rw [hplace]
          by_contra hdiff
          exact hlayout ⟨hne, fun heq => hdiff heq.symm⟩
        · rw [hcount]
          exact (not_not.mp htype).symm
    · rw [if_neg hsel] at hok
      obtain ⟨⟨vars₁, l₁, a₁⟩, hrest, hok⟩ := bind_eq_ok.mp hok
      cases hok
      obtain ⟨place', hp, hallot⟩ := ih hsmall' ht hrest
      exact ⟨place', hp, hallot.skip (Bool.eq_false_iff.mpr fun h => hsel (inPass_global.mp h))⟩

lemma globalPass_of_granted {samplerIndex : ℕ} {count : String → ℕ} (hlimit : limit < 2 ^ 32)
    (hsmall : ∀ v ∈ vars, v.isGlobal = true → Small limit v) (ht : Tracks limit done place l a)
    (hplace : Granted limit place (taken place ∅ done)
      (newNames (done.map Var.name) (vars.filter (inPass Var.isGlobal b))))
    (hslot : ∀ v ∈ vars, v.isGlobal = true → v.slot ≠ noSlot → place v.name = v.slot)
    (hdone : ∀ v ∈ done, v.slotCount = count v.name)
    (hcount : ∀ v ∈ vars, v.isGlobal = true → v.slotCount = count v.name) :
    ∃ vars' l' a', globalPass b vars samplerIndex l a = .ok (vars', l', a') ∧
      Allotted limit b done vars place vars' l' a' := by
  induction vars generalizing samplerIndex l a done with
  | nil => exact ⟨[], l, a, rfl, .nil ht⟩
  | cons v vars ih =>
    have hsmall' := fun w hw => hsmall w (List.mem_cons_of_mem _ hw)
    have hslot' := fun w hw => hslot w (List.mem_cons_of_mem _ hw)
    have hcount' := fun w hw => hcount w (List.mem_cons_of_mem _ hw)
    rw [globalPass]
    dsimp only
    by_cases hin : inPass Var.isGlobal b v = true
    · have hsel := inPass_global.mp hin
      have hv := hslot v List.mem_cons_self hsel.1
      have hvc := hcount v List.mem_cons_self hsel.1
      rw [List.filter_cons_of_pos hin, newNames] at hplace
      rw [if_pos hsel]
      rcases ht.listed.find v.name with ⟨hnone, hnew⟩ | ⟨u, hsome, hu, w, hw, hname, hwc⟩
      · rw [if_neg hnew] at hplace
        obtain ⟨a₁, hreserve, ha₁⟩ :=
          reserveVar_of_grants ht.holds hlimit (hsmall v List.mem_cons_self hsel.1) hplace.1
        have ht₁ := ht.push samplerIndex hplace.1 ha₁
        have hplace₁ : Granted limit place (taken place ∅ (done ++ [v]))
            (newNames ((done ++ [v]).map Var.name) (vars.filter (inPass Var.isGlobal b))) := by
          rw [taken_append, taken_cons, taken_nil, List.map_append, List.map_singleton]
          exact hplace.2
        have hdone₁ : ∀ w ∈ done ++ [v], w.slotCount = count w.name := by
          intro w hw
          rcases List.mem_append.mp hw with hw | hw
          · exact hdone w hw
          · rwa [List.mem_singleton.mp hw]
        obtain ⟨vars', l', a', hrest, hallot⟩ := ih hsmall' ht₁ hplace₁ hslot' hdone₁ hcount'
        refine ⟨{ v with slot := place v.name } :: vars', l', a', ?_, hallot.first hin hv hnew⟩
        rw [hnone]
        exact bind_eq_ok.mpr ⟨_, hreserve, bind_eq_ok.mpr ⟨_, hrest, rfl⟩⟩
      · rw [if_pos (hname ▸ List.mem_map_of_mem hw)] at hplace
        obtain ⟨vars', l', a', hrest, hallot⟩ := ih hsmall' ht hplace hslot' hdone hcount'
        have hcounts : w.slotCount = v.slotCount := by rw [hdone w hw, hname, hvc]
        refine ⟨{ v with slot := place v.name } :: vars', l', a', ?_,
          hallot.found hin hv hw hname hcounts⟩
        rw [hsome, ← hu]
        dsimp only
        rw [if_neg fun h => h.2 ((hv h.1).symm.trans hu.symm),
          if_neg (not_not.mpr (hcounts.symm.trans hwc))]
        exact bind_eq_ok.mpr ⟨_, hrest, rfl⟩
    · rw [List.filter_cons_of_neg hin] at hplace
      obtain ⟨vars', l', a', hrest, hallot⟩ := ih hsmall' ht hplace hslot' hdone hcount'
      refine ⟨v :: vars', l', a', ?_, hallot.skip (Bool.eq_false_iff.mpr hin)⟩
      rw [if_neg fun h => hin (inPass_global.mpr h)]
      exact bind_eq_ok.mpr ⟨_, hrest, rfl⟩

/-- The places of the variables of a pass, where later ones keep the names before them. -/
lemma Allotted.place_eq (h : Allotted limit b done vars place vars' l' a')
    (hp : ∀ u ∈ done ++ newNames (done.map Var.name) (vars.filter (inPass Var.isGlobal b)),
      place' u.name = place u.name) :
    ∀ v ∈ vars, inPass Var.isGlobal b v = true → place' v.name = place v.name := by
  intro v hv hin
  obtain ⟨-, u, hu, hname, -⟩ := h.agree v hv hin
  rw [← hname]
  exact hp u hu

lemma Allotted.given (h : Allotted limit true done vars place vars' l' a') : vars' = vars := by
  rw [h.vars_eq]
  conv_rhs => rw [← List.map_id vars]
  exact List.map_congr_left fun v hv => Var.assign_eq_self fun hin =>
    (h.agree v hv hin).1 (hasSlot_iff.mp (inPass_global.mp hin).2)

/-! ### All passes -/

/-- The uniforms of both shaders, once for each name and in the order of the list. -/
def globals (vertex fragment : List Var) : List Var :=
  newNames [] (inOrder Var.isGlobal (vertex ++ fragment))

/-- What all passes have done. -/
structure Shared (limit : ℕ) (vertex fragment : List Var) (place : String → ℕ)
    (vertex' fragment' : List Var) (l : LinkedProgram) : Prop where
  vertex_eq : vertex' = vertex.map (Var.assign Var.isGlobal place)
  fragment_eq : fragment' = fragment.map (Var.assign Var.isGlobal place)
  listed : Listed l (globals vertex fragment) place
  granted : Granted limit place ∅ (globals vertex fragment)
  agree : ∀ v ∈ vertex ++ fragment, v.isGlobal = true →
    (v.slot ≠ noSlot → place v.name = v.slot) ∧
    ∃ u ∈ globals vertex fragment, u.name = v.name ∧ u.slotCount = v.slotCount

variable {vertex fragment vertex' fragment' : List Var}

lemma globals_eq : globals vertex fragment =
    let n₁ := newNames [] (vertex.filter (inPass Var.isGlobal true))
    let n₂ := n₁ ++ newNames (n₁.map Var.name) (fragment.filter (inPass Var.isGlobal true))
    let n₃ := n₂ ++ newNames (n₂.map Var.name) (vertex.filter (inPass Var.isGlobal false))
    n₃ ++ newNames (n₃.map Var.name) (fragment.filter (inPass Var.isGlobal false)) := by
  rw [globals, inOrder, List.filter_append, List.filter_append, List.append_assoc,
    newNames_append, newNames_append, newNames_append]
  simp only [List.nil_append, List.append_assoc, List.map_append]

lemma tracks_init (heap : ℕ → BitVec 32) (place : String → ℕ) :
    Tracks limit [] place ⟨[], 0⟩ (.init heap limit) := by
  refine ⟨⟨rfl, fun v hv => absurd hv List.not_mem_nil, .inl rfl⟩, trivial, ?_⟩
  rw [taken_nil]
  exact holds_init heap limit

lemma assign_both {place₁ place₂ : String → ℕ} (hv : v.isGlobal = true → v.hasSlot = true →
      place₁ v.name = v.slot)
    (hp : v.isGlobal = true → v.hasSlot = false → place₁ v.name = place₂ v.name) :
    v.assign (inPass Var.isGlobal false) place₂ = v.assign Var.isGlobal place₁ := by
  unfold Var.assign
  by_cases hglobal : v.isGlobal = true
  · cases hslot : v.hasSlot with
    | false =>
      rw [if_pos (inPass_global.mpr ⟨hglobal, hslot⟩), if_pos hglobal, hp hglobal hslot]
    | true =>
      rw [if_neg fun h => ?_, if_pos hglobal, hv hglobal hslot]
      have := (inPass_global.mp h).2
      rw [hslot] at this
      exact Bool.false_ne_true this.symm
  · rw [if_neg fun h => hglobal (inPass_global.mp h).1, if_neg hglobal]

lemma allocateGlobalSlots_ok {heap : ℕ → BitVec 32}
    (hsmall : ∀ v ∈ vertex ++ fragment, v.isGlobal = true → Small glMaxVertexUniformComponents v)
    (hok : allocateGlobalSlots heap vertex fragment = .ok (vertex', fragment', l)) :
    ∃ place, Shared glMaxVertexUniformComponents vertex fragment place vertex' fragment' l := by
  have hlimit : glMaxVertexUniformComponents < 2 ^ 32 := by decide
  have hsv := fun v hv => hsmall v (List.mem_append_left fragment hv)
  have hsf := fun v hv => hsmall v (List.mem_append_right vertex hv)
  obtain ⟨⟨v₁, l₁, a₁⟩, h₁, hok⟩ := bind_eq_ok.mp hok
  obtain ⟨⟨f₁, l₂, a₂⟩, h₂, hok⟩ := bind_eq_ok.mp hok
  obtain ⟨⟨v₂, l₃, a₃⟩, h₃, hok⟩ := bind_eq_ok.mp hok
  obtain ⟨⟨f₂, l₄, a₄⟩, h₄, hok⟩ := bind_eq_ok.mp hok
  cases hok
  obtain ⟨p₁, -, c₁⟩ := globalPass_ok hlimit hsv (tracks_init heap fun _ => 0) h₁
  obtain rfl := c₁.given
  obtain ⟨p₂, hp₂, c₂⟩ := globalPass_ok hlimit hsf c₁.tracks h₂
  obtain rfl := c₂.given
  obtain ⟨p₃, hp₃, c₃⟩ := globalPass_ok hlimit hsv c₂.tracks h₃
  obtain ⟨p₄, hp₄, c₄⟩ := globalPass_ok hlimit hsf c₃.tracks h₄
  -- later places keep the names that have an entry
  have e₂ := fun u hu => (hp₄ u (List.mem_append_left _ hu)).trans (hp₃ u hu)
  have e₁ := fun u hu => (e₂ u (List.mem_append_left _ hu)).trans (hp₂ u hu)
  have hv₁ := c₁.place_eq e₁
  have hf₁ := c₂.place_eq e₂
  have hv₂ := c₃.place_eq hp₄
  have hin : ∀ {v : Var} {b : Bool}, v.isGlobal = true → v.hasSlot = b →
      inPass Var.isGlobal b v = true := fun h hb => inPass_global.mpr ⟨h, hb⟩
  refine ⟨p₄, ?_, ?_, ?_, ?_, ?_⟩
  · rw [c₃.vars_eq]
    refine List.map_congr_left fun v hv => assign_both (fun hg hb => ?_) fun hg hb => ?_
    · exact (hv₁ v hv (hin hg hb)).trans ((c₁.agree v hv (hin hg hb)).1 (hasSlot_iff.mp hb))
    · exact hv₂ v hv (hin hg hb)
  · rw [c₄.vars_eq]
    refine List.map_congr_left fun v hv => assign_both (fun hg hb => ?_) fun _ _ => rfl
    exact (hf₁ v hv (hin hg hb)).trans ((c₂.agree v hv (hin hg hb)).1 (hasSlot_iff.mp hb))
  · rw [globals_eq]
    exact c₄.tracks.listed
  · rw [globals_eq]
    exact c₄.tracks.granted
  · rw [globals_eq]
    intro v hv hg
    cases hb : v.hasSlot with
    | true =>
      rcases List.mem_append.mp hv with hv | hv
      · obtain ⟨hslot, u, hu, h⟩ := c₁.agree v hv (hin hg hb)
        refine ⟨fun hne => (hv₁ v hv (hin hg hb)).trans (hslot hne), u, ?_, h⟩
        exact List.mem_append_left _ (List.mem_append_left _ (List.mem_append_left _ hu))
      · obtain ⟨hslot, u, hu, h⟩ := c₂.agree v hv (hin hg hb)
        refine ⟨fun hne => (hf₁ v hv (hin hg hb)).trans (hslot hne), u, ?_, h⟩
        exact List.mem_append_left _ (List.mem_append_left _ hu)
    | false =>
      rcases List.mem_append.mp hv with hv | hv
      · obtain ⟨hslot, u, hu, h⟩ := c₃.agree v hv (hin hg hb)
        refine ⟨fun hne => (hv₂ v hv (hin hg hb)).trans (hslot hne), u, ?_, h⟩
        exact List.mem_append_left _ hu
      · obtain ⟨hslot, u, hu, h⟩ := c₄.agree v hv (hin hg hb)
        exact ⟨hslot, u, hu, h⟩

lemma allocateGlobalSlots_of_granted {heap : ℕ → BitVec 32} {count : String → ℕ}
    (hsmall : ∀ v ∈ vertex ++ fragment, v.isGlobal = true → Small glMaxVertexUniformComponents v)
    (hplace : Granted glMaxVertexUniformComponents place ∅ (globals vertex fragment))
    (hslot : ∀ v ∈ vertex ++ fragment, v.isGlobal = true → v.slot ≠ noSlot →
      place v.name = v.slot)
    (hcount : ∀ v ∈ vertex ++ fragment, v.isGlobal = true → v.slotCount = count v.name) :
    ∃ r, allocateGlobalSlots heap vertex fragment = .ok r := by
  have hlimit : glMaxVertexUniformComponents < 2 ^ 32 := by decide
  have hsv := fun v hv => hsmall v (List.mem_append_left fragment hv)
  have hsf := fun v hv => hsmall v (List.mem_append_right vertex hv)
  have hlv := fun v hv => hslot v (List.mem_append_left fragment hv)
  have hlf := fun v hv => hslot v (List.mem_append_right vertex hv)
  have hcv := fun v hv => hcount v (List.mem_append_left fragment hv)
  have hcf := fun v hv => hcount v (List.mem_append_right vertex hv)
  have hnew : ∀ {b : Bool} {seen : List String} {vars : List Var},
      (∀ v ∈ vars, v.isGlobal = true → v.slotCount = count v.name) →
      ∀ u ∈ newNames seen (vars.filter (inPass Var.isGlobal b)), u.slotCount = count u.name := by
    intro b seen vars h u hu
    obtain ⟨hu, hin⟩ := List.mem_filter.mp (mem_newNames hu).1
    exact h u hu (inPass_global.mp hin).1
  have hdone : ∀ {b : Bool} {done vars : List Var},
      (∀ v ∈ done, v.slotCount = count v.name) →
      (∀ v ∈ vars, v.isGlobal = true → v.slotCount = count v.name) →
      ∀ u ∈ done ++ newNames (done.map Var.name) (vars.filter (inPass Var.isGlobal b)),
        u.slotCount = count u.name := by
    intro b done vars h h' u hu
    rcases List.mem_append.mp hu with hu | hu
    · exact h u hu
    · exact hnew h' u hu
  rw [globals_eq] at hplace
  obtain ⟨h₃, h₄⟩ := granted_append.mp hplace
  obtain ⟨h₂, h₃⟩ := granted_append.mp h₃
  obtain ⟨h₁, h₂⟩ := granted_append.mp h₂
  have d₀ : ∀ v ∈ ([] : List Var), v.slotCount = count v.name :=
    fun v hv => absurd hv List.not_mem_nil
  obtain ⟨v₁, l₁, a₁, g₁, c₁⟩ :=
    globalPass_of_granted hlimit hsv (tracks_init heap place) (by rwa [taken_nil]) hlv d₀ hcv
  rw [c₁.given] at g₁
  have d₁ := @hdone true _ _ d₀ hcv
  obtain ⟨f₁, l₂, a₂, g₂, c₂⟩ := globalPass_of_granted hlimit hsf c₁.tracks h₂ hlf d₁ hcf
  rw [c₂.given] at g₂
  have d₂ := @hdone true _ _ d₁ hcf
  obtain ⟨v₂, l₃, a₃, g₃, c₃⟩ := globalPass_of_granted hlimit hsv c₂.tracks h₃ hlv d₂ hcv
  have d₃ := @hdone false _ _ d₂ hcv
  obtain ⟨f₂, l₄, a₄, g₄, c₄⟩ := globalPass_of_granted hlimit hsf c₃.tracks h₄ hlf d₃ hcf
  exact ⟨_, bind_eq_ok.mpr ⟨_, g₁, bind_eq_ok.mpr ⟨_, g₂, bind_eq_ok.mpr ⟨_, g₃,
    bind_eq_ok.mpr ⟨_, g₄, rfl⟩⟩⟩⟩⟩

end

end KernelModel.Glsl
