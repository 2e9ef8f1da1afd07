import KernelModel.Linker

/-!
What one pass over the variables does.

A function from names to slots says where the variables of a pass go. They are granted their
slots one after the other, each beside the ones before it. A pass succeeds just when there is such
a function and the variables it links agree with each other.
-/

namespace KernelModel.Glsl

open Allocator

lemma bind_eq_ok {α β : Type} {x : Except Failure α} {f : α → Except Failure β} {r : β} :
    (x >>= f) = .ok r ↔ ∃ a, x = .ok a ∧ f a = .ok r := by
  cases x with
  | error e =>
    constructor
    · intro h
      cases h
    · rintro ⟨a, h, -⟩
      cases h
  | ok a =>
    constructor
    · exact fun h => ⟨a, rfl, h⟩
    · rintro ⟨b, hb, h⟩
      cases hb
      exact h

/-- The slots of a variable that is placed. -/
def Var.range (place : String → ℕ) (v : Var) : Set ℕ :=
  Set.Ico (place v.name) (place v.name + v.slotCount)

/-- The variable in its place, if it is one of those that the pass is for. -/
def Var.assign (sel : Var → Bool) (place : String → ℕ) (v : Var) : Var :=
  if sel v then { v with slot := place v.name } else v

/-- One after the other, the variables are granted their places. -/
def Granted (limit : ℕ) (place : String → ℕ) : Set ℕ → List Var → Prop
  | _, [] => True
  | used, v :: vars =>
    Grants limit used v.slot v.slotCount (place v.name) ∧
      Granted limit place (used ∪ v.range place) vars

/-- The slots that are used afterwards. -/
def taken (place : String → ℕ) (used : Set ℕ) (vars : List Var) : Set ℕ :=
  {k | k ∈ used ∨ ∃ v ∈ vars, k ∈ v.range place}

/-- A variable that can be asked for. -/
def Small (limit : ℕ) (v : Var) : Prop :=
  0 < v.slotCount ∧ v.slotCount ≤ 32 ∧ v.slotCount ≤ limit

/-- The slots of two variables do not overlap. -/
def Var.Apart (v w : Var) : Prop := v.slot + v.slotCount ≤ w.slot ∨ w.slot + w.slotCount ≤ v.slot

section

variable {limit : ℕ} {place place' : String → ℕ} {used : Set ℕ} {sel : Var → Bool} {v : Var}
  {vars xs ys : List Var}

/-! ### Places -/

@[simp] lemma Var.assign_name : (v.assign sel place).name = v.name := by
  unfold Var.assign
  split_ifs <;> rfl

@[simp] lemma Var.assign_type : (v.assign sel place).type = v.type := by
  unfold Var.assign
  split_ifs <;> rfl

@[simp] lemma Var.assign_slotCount : (v.assign sel place).slotCount = v.slotCount := by
  unfold Var.assign
  split_ifs <;> rfl

lemma Var.assign_of (h : sel v = true) : v.assign sel place = { v with slot := place v.name } :=
  if_pos h

lemma Var.assign_of_not (h : sel v = false) : v.assign sel place = v :=
  if_neg (by rw [h]; exact Bool.false_ne_true)

lemma Var.assign_congr (h : place v.name = place' v.name) :
    v.assign sel place = v.assign sel place' := by
  unfold Var.assign
  rw [h]

lemma Var.assign_eq_self (h : sel v = true → place v.name = v.slot) : v.assign sel place = v := by
  unfold Var.assign
  split_ifs with hsel
  · rw [h hsel]
  · rfl

lemma map_assign_name : (vars.map (Var.assign sel place)).map Var.name = vars.map Var.name := by
  rw [List.map_map]
  exact List.map_congr_left fun v _ => Var.assign_name

@[simp] lemma taken_nil : taken place used [] = used := by
  ext k
  simp [taken]

lemma taken_cons : taken place used (v :: vars) = taken place (used ∪ v.range place) vars := by
  ext k
  simp only [taken, Set.mem_ofPred_eq, List.mem_cons, Set.mem_union]
  constructor
  · rintro (hk | ⟨w, rfl | hw, hk⟩)
    · exact .inl (.inl hk)
    · exact .inl (.inr hk)
    · exact .inr ⟨w, hw, hk⟩
  · rintro ((hk | hk) | ⟨w, hw, hk⟩)
    · exact .inl hk
    · exact .inr ⟨v, .inl rfl, hk⟩
    · exact .inr ⟨w, .inr hw, hk⟩

lemma range_congr (h : place v.name = place' v.name) : v.range place = v.range place' := by
  rw [Var.range, Var.range, h]

lemma granted_congr (h : ∀ v ∈ vars, place v.name = place' v.name)
    (hg : Granted limit place used vars) : Granted limit place' used vars := by
  induction vars generalizing used with
  | nil => trivial
  | cons v vars ih =>
    have hv := h v List.mem_cons_self
    refine ⟨hv ▸ hg.1, ?_⟩
    rw [← range_congr hv]
    exact ih (fun w hw => h w (List.mem_cons_of_mem _ hw)) hg.2

lemma taken_congr (h : ∀ v ∈ vars, place v.name = place' v.name) :
    taken place used vars = taken place' used vars := by
  ext k
  refine or_congr Iff.rfl (exists_congr fun v => and_congr_right fun hv => ?_)
  rw [range_congr (h v hv)]

lemma granted_append : Granted limit place used (xs ++ ys) ↔
    Granted limit place used xs ∧ Granted limit place (taken place used xs) ys := by
  induction xs generalizing used with
  | nil =>
    rw [taken_nil]
    exact (and_iff_right trivial).symm
  | cons x xs ih =>
    rw [List.cons_append, Granted, Granted, ih, taken_cons, and_assoc]

lemma taken_append : taken place used (xs ++ ys) = taken place (taken place used xs) ys := by
  induction xs generalizing used with
  | nil => rw [taken_nil, List.nil_append]
  | cons x xs ih => rw [List.cons_append, taken_cons, ih, taken_cons]

/-- Places that were granted are in bounds, and where the shader wants them. -/
lemma Granted.bounds (h : Granted limit place used vars) :
    ∀ v ∈ vars, place v.name + v.slotCount ≤ limit ∧ Free used (place v.name) v.slotCount ∧
      (v.slot ≠ noSlot → place v.name = v.slot) := by
  induction vars generalizing used with
  | nil => exact fun v hv => absurd hv List.not_mem_nil
  | cons v vars ih =>
    intro w hw
    rcases List.mem_cons.mp hw with rfl | hw
    · exact h.1.bounds
    · obtain ⟨hle, hfree, hslot⟩ := ih h.2 w hw
      exact ⟨hle, fun k h1 h2 hk => hfree k h1 h2 (.inl hk), hslot⟩

lemma Granted.apart (h : Granted limit place used vars)
    (hpos : ∀ v ∈ vars, 0 < v.slotCount) :
    vars.Pairwise fun v w =>
      place v.name + v.slotCount ≤ place w.name ∨ place w.name + w.slotCount ≤ place v.name := by
  induction vars generalizing used with
  | nil => exact .nil
  | cons v vars ih =>
    refine List.pairwise_cons.mpr
      ⟨fun w hw => ?_, ih h.2 fun w hw => hpos w (List.mem_cons_of_mem _ hw)⟩
    have hfree := (h.2.bounds w hw).2.1
    have hv := hpos v List.mem_cons_self
    have hw := hpos w (List.mem_cons_of_mem _ hw)
    by_contra hover
    -- the slot where the later one of them begins
    rcases Nat.le_total (place v.name) (place w.name) with hle | hle
    · exact hfree (place w.name) le_rfl (by omega) (.inr ⟨hle, by omega⟩)
    · exact hfree (place v.name) hle (by omega) (.inr ⟨le_rfl, by omega⟩)

/-! ### Allocating -/

variable {a : Allocator}

lemma reserveVar_spec (h : Holds a limit used) (hlimit : limit < 2 ^ 32) (hv : Small limit v) :
    (∃ s a', reserveVar a v = .ok (s, a') ∧ Grants limit used v.slot v.slotCount s ∧
      Holds a' limit (used ∪ Set.Ico s (s + v.slotCount))) ∨
    ((∃ e, reserveVar a v = .error e) ∧ ∀ s, ¬Grants limit used v.slot v.slotCount s) := by
  rcases reserve_spec h hv.1 hv.2.1 hv.2.2 hlimit v.slot with ⟨s, a', heq, hg, ha⟩ | ⟨heq, hg⟩
  · exact .inl ⟨s, a', by rw [reserveVar, heq], hg, ha⟩
  · exact .inr ⟨⟨_, by rw [reserveVar, heq]⟩, hg⟩

lemma reserveVar_ok (h : Holds a limit used) (hlimit : limit < 2 ^ 32) (hv : Small limit v)
    {s : ℕ} {a' : Allocator} (hok : reserveVar a v = .ok (s, a')) :
    Grants limit used v.slot v.slotCount s ∧
      Holds a' limit (used ∪ Set.Ico s (s + v.slotCount)) := by
  rcases reserveVar_spec h hlimit hv with ⟨s', a'', heq, hg, ha⟩ | ⟨⟨e, heq⟩, -⟩
  · rw [hok] at heq
    cases heq
    exact ⟨hg, ha⟩
  · rw [hok] at heq
    cases heq

lemma reserveVar_of_grants (h : Holds a limit used) (hlimit : limit < 2 ^ 32) (hv : Small limit v)
    {s : ℕ} (hg : Grants limit used v.slot v.slotCount s) :
    ∃ a', reserveVar a v = .ok (s, a') ∧ Holds a' limit (used ∪ Set.Ico s (s + v.slotCount)) := by
  rcases reserveVar_spec h hlimit hv with ⟨s', a', heq, hg', ha⟩ | ⟨-, hno⟩
  · obtain rfl := hg.unique hg'
    exact ⟨a', heq, ha⟩
  · exact absurd hg (hno s)

/-- The variables that a pass is for. -/
def inPass (p : Var → Bool) (hasSlot : Bool) (v : Var) : Bool := p v && (v.hasSlot == hasSlot)

lemma inPass_iff {p : Var → Bool} {b : Bool} :
    inPass p b v = true ↔ p v = true ∧ v.hasSlot = b := by
  rw [inPass, Bool.and_eq_true, beq_iff_eq]

lemma not_mem_names (hn : ((v :: vars).map Var.name).Nodup) :
    ∀ w ∈ vars, w.name ≠ v.name := by
  intro w hw heq
  rw [List.map_cons, List.nodup_cons] at hn
  exact hn.1 (heq ▸ List.mem_map_of_mem hw)

lemma nodup_tail (hn : ((v :: vars).map Var.name).Nodup) : (vars.map Var.name).Nodup := by
  rw [List.map_cons, List.nodup_cons] at hn
  exact hn.2

lemma update_name {s : ℕ} (hn : ∀ w ∈ vars, w.name ≠ v.name) :
    ∀ w ∈ vars, place w.name = Function.update place v.name s w.name :=
  fun w hw => (Function.update_of_ne (hn w hw) _ _).symm

def hasType (type : VarType) (v : Var) : Bool := v.type = type

variable {type : VarType} {b : Bool} {a' : Allocator} {vars' : List Var}

lemma allocatePass_map (hn : (vars.map Var.name).Nodup)
    (hok : allocatePass type b vars a = .ok (vars', a')) :
    ∃ place, vars' = vars.map (Var.assign (inPass (hasType type) b) place) := by
  induction vars generalizing a vars' a' with
  | nil =>
    cases hok
    exact ⟨fun _ => 0, rfl⟩
  | cons v vars ih =>
    rw [allocatePass] at hok
    split_ifs at hok with hsel
    · obtain ⟨⟨s, a₁⟩, -, hok⟩ := bind_eq_ok.mp hok
      obtain ⟨⟨vars₁, a₂⟩, hrest, hok⟩ := bind_eq_ok.mp hok
      cases hok
      obtain ⟨place, rfl⟩ := ih (nodup_tail hn) hrest
      refine ⟨Function.update place v.name s, ?_⟩
      rw [List.map_cons, Var.assign_of (inPass_iff.mpr ⟨decide_eq_true hsel.1, hsel.2⟩),
        Function.update_self]
      congr 1
      exact List.map_congr_left fun w hw =>
        Var.assign_congr (update_name (not_mem_names hn) w hw)
    · obtain ⟨⟨vars₁, a₂⟩, hrest, hok⟩ := bind_eq_ok.mp hok
      cases hok
      obtain ⟨place, rfl⟩ := ih (nodup_tail hn) hrest
      refine ⟨place, ?_⟩
      rw [List.map_cons, Var.assign_of_not]
      exact Bool.eq_false_iff.mpr fun h =>
        hsel ⟨of_decide_eq_true (inPass_iff.mp h).1, (inPass_iff.mp h).2⟩

lemma reserveVar_given {s : ℕ} (hslot : v.slot ≠ noSlot) (hok : reserveVar a v = .ok (s, a')) :
    s = v.slot := by
  rw [reserveVar] at hok
  cases hres : a.reserve v.slot v.slotCount 1 with
  | error e =>
    rw [hres] at hok
    cases e <;> cases hok
  | ok r =>
    rw [hres] at hok
    cases hok
    exact reserve_given hslot hres

lemma allocatePass_given (hok : allocatePass type true vars a = .ok (vars', a')) :
    vars' = vars := by
  induction vars generalizing a vars' a' with
  | nil =>
    cases hok
    rfl
  | cons v vars ih =>
    rw [allocatePass] at hok
    split_ifs at hok with hsel
    · obtain ⟨⟨s, a₁⟩, hv, hok⟩ := bind_eq_ok.mp hok
      obtain ⟨⟨vars₁, a₂⟩, hrest, hok⟩ := bind_eq_ok.mp hok
      cases hok
      rw [ih hrest, reserveVar_given (of_decide_eq_true hsel.2) hv]
    · obtain ⟨⟨vars₁, a₂⟩, hrest, hok⟩ := bind_eq_ok.mp hok
      cases hok
      rw [ih hrest]

lemma allocatePass_ok (hlimit : limit < 2 ^ 32) (ha : Holds a limit used)
    (hsmall : ∀ v ∈ vars, v.type = type → Small limit v) (hn : (vars.map Var.name).Nodup)
    (hok : allocatePass type b vars a = .ok (vars', a')) :
    ∃ place, vars' = vars.map (Var.assign (inPass (hasType type) b) place) ∧
      Granted limit place used (vars.filter (inPass (hasType type) b)) ∧
      Holds a' limit (taken place used (vars.filter (inPass (hasType type) b))) := by
  induction vars generalizing a used vars' a' with
  | nil =>
    cases hok
    exact ⟨fun _ => 0, rfl, trivial, by rwa [List.filter_nil, taken_nil]⟩
  | cons v vars ih =>
    have hsmall' := fun w hw => hsmall w (List.mem_cons_of_mem _ hw)
    rw [allocatePass] at hok
    split_ifs at hok with hsel
    · obtain ⟨⟨s, a₁⟩, hv, hok⟩ := bind_eq_ok.mp hok
      obtain ⟨⟨vars₁, a₂⟩, hrest, hok⟩ := bind_eq_ok.mp hok
      cases hok
      obtain ⟨hg, ha₁⟩ := reserveVar_ok ha hlimit (hsmall v List.mem_cons_self hsel.1) hv
      obtain ⟨place, rfl, hplace, ha'⟩ := ih ha₁ hsmall' (nodup_tail hn) hrest
      have hupdate := @update_name place v vars s (not_mem_names hn)
      have hfilter : ∀ w ∈ vars.filter (inPass (hasType type) b),
          place w.name = Function.update place v.name s w.name :=
        fun w hw => hupdate w (List.mem_filter.mp hw).1
      have hin : inPass (hasType type) b v = true :=
        inPass_iff.mpr ⟨decide_eq_true hsel.1, hsel.2⟩
      have hrange : v.range (Function.update place v.name s) = Set.Ico s (s + v.slotCount) := by
        rw [Var.range, Function.update_self]
      refine ⟨Function.update place v.name s, ?_, ?_, ?_⟩
      · rw [List.map_cons, Var.assign_of hin, Function.update_self]
        congr 1
        exact List.map_congr_left fun w hw => Var.assign_congr (hupdate w hw)
      · rw [List.filter_cons_of_pos hin]
        refine ⟨by rwa [Function.update_self], ?_⟩
        rw [hrange]
        exact granted_congr hfilter hplace
      · rwa [List.filter_cons_of_pos hin, taken_cons, hrange, ← taken_congr hfilter]
    · obtain ⟨⟨vars₁, a₂⟩, hrest, hok⟩ := bind_eq_ok.mp hok
      cases hok
      obtain ⟨place, rfl, hplace, ha'⟩ := ih ha hsmall' (nodup_tail hn) hrest
      have hin : inPass (hasType type) b v = false := Bool.eq_false_iff.mpr fun h =>
        hsel ⟨of_decide_eq_true (inPass_iff.mp h).1, (inPass_iff.mp h).2⟩
      have hnot : ¬inPass (hasType type) b v = true := by
        rw [hin]
        exact Bool.false_ne_true
      refine ⟨place, ?_, ?_, ?_⟩
      · rw [List.map_cons, Var.assign_of_not hin]
      · rwa [List.filter_cons_of_neg hnot]
      · rwa [List.filter_cons_of_neg hnot]

lemma allocatePass_of_granted (hlimit : limit < 2 ^ 32) (ha : Holds a limit used)
    (hsmall : ∀ v ∈ vars, v.type = type → Small limit v)
    (hplace : Granted limit place used (vars.filter (inPass (hasType type) b))) :
    ∃ a', allocatePass type b vars a =
        .ok (vars.map (Var.assign (inPass (hasType type) b) place), a') ∧
      Holds a' limit (taken place used (vars.filter (inPass (hasType type) b))) := by
  induction vars generalizing a used with
  | nil => exact ⟨a, rfl, by rwa [List.filter_nil, taken_nil]⟩
  | cons v vars ih =>
    have hsmall' := fun w hw => hsmall w (List.mem_cons_of_mem _ hw)
    rw [allocatePass]
    by_cases hsel : v.type = type ∧ v.hasSlot = b
    · have hin : inPass (hasType type) b v = true :=
        inPass_iff.mpr ⟨decide_eq_true hsel.1, hsel.2⟩
      rw [List.filter_cons_of_pos hin] at hplace ⊢
      obtain ⟨a₁, hv, ha₁⟩ :=
        reserveVar_of_grants ha hlimit (hsmall v List.mem_cons_self hsel.1) hplace.1
      obtain ⟨a₂, hrest, ha₂⟩ := ih ha₁ hsmall' hplace.2
      refine ⟨a₂, ?_, by rwa [taken_cons]⟩
      rw [if_pos hsel, hv, List.map_cons, Var.assign_of hin]
      exact bind_eq_ok.mpr ⟨_, rfl, bind_eq_ok.mpr ⟨_, hrest, rfl⟩⟩
    · have hin : inPass (hasType type) b v = false := Bool.eq_false_iff.mpr fun h =>
        hsel ⟨of_decide_eq_true (inPass_iff.mp h).1, (inPass_iff.mp h).2⟩
      have hnot : ¬inPass (hasType type) b v = true := by
        rw [hin]
        exact Bool.false_ne_true
      rw [List.filter_cons_of_neg hnot] at hplace ⊢
      obtain ⟨a₂, hrest, ha₂⟩ := ih ha hsmall' hplace
      refine ⟨a₂, ?_, ha₂⟩
      rw [if_neg hsel, List.map_cons, Var.assign_of_not hin]
      exact bind_eq_ok.mpr ⟨_, hrest, rfl⟩

/-! ### Both passes -/

/-- The variables in the order in which they are asked for. -/
def inOrder (p : Var → Bool) (vars : List Var) : List Var :=
  vars.filter (inPass p true) ++ vars.filter (inPass p false)

lemma mem_inOrder {p : Var → Bool} : v ∈ inOrder p vars ↔ v ∈ vars ∧ p v = true := by
  simp only [inOrder, List.mem_append, List.mem_filter, inPass_iff]
  cases v.hasSlot <;> simp

lemma hasSlot_iff : v.hasSlot = true ↔ v.slot ≠ noSlot := decide_eq_true_iff

lemma eq_of_name {w : Var} (hn : (vars.map Var.name).Nodup) (hv : v ∈ vars) (hw : w ∈ vars)
    (h : v.name = w.name) : v = w := List.inj_on_of_nodup_map hn hv hw h

lemma exists_places (p q : String → ℕ) (h : ∀ v ∈ xs, ∀ w ∈ ys, v.name ≠ w.name) :
    ∃ place : String → ℕ, (∀ v ∈ xs, place v.name = p v.name) ∧
      ∀ w ∈ ys, place w.name = q w.name := by
  refine ⟨fun n => if n ∈ xs.map Var.name then p n else q n, fun v hv => ?_, fun w hw => ?_⟩
  · exact if_pos (List.mem_map_of_mem hv)
  · refine if_neg fun hmem => ?_
    obtain ⟨v, hv, heq⟩ := List.mem_map.mp hmem
    exact h v hv w hw heq

lemma inPass_names {p : Var → Bool} (hn : (vars.map Var.name).Nodup) :
    ∀ v ∈ vars.filter (inPass p true), ∀ w ∈ vars.filter (inPass p false), v.name ≠ w.name := by
  intro v hv w hw heq
  obtain ⟨hv, hv'⟩ := List.mem_filter.mp hv
  obtain ⟨hw, hw'⟩ := List.mem_filter.mp hw
  obtain rfl := eq_of_name hn hv hw heq
  have h1 := (inPass_iff.mp hv').2
  rw [(inPass_iff.mp hw').2] at h1
  exact Bool.false_ne_true h1

lemma map_assign_given {p : Var → Bool}
    (hplace : Granted limit place used (vars.filter (inPass p true))) :
    vars.map (Var.assign (inPass p true) place) = vars := by
  conv_rhs => rw [← List.map_id vars]
  refine List.map_congr_left fun v hv => Var.assign_eq_self fun hsel => ?_
  have hmem := List.mem_filter.mpr ⟨hv, hsel⟩
  exact (hplace.bounds v hmem).2.2 (hasSlot_iff.mp (inPass_iff.mp hsel).2)

lemma map_assign_both {p : Var → Bool}
    (hplace : Granted limit place used (vars.filter (inPass p true))) :
    vars.map (Var.assign (inPass p false) place) = vars.map (Var.assign p place) := by
  refine List.map_congr_left fun v hv => ?_
  unfold Var.assign
  by_cases hp : p v = true
  · cases hslot : v.hasSlot with
    | false => rw [if_pos (inPass_iff.mpr ⟨hp, hslot⟩), if_pos hp]
    | true =>
      have hmem := List.mem_filter.mpr ⟨hv, inPass_iff.mpr ⟨hp, hslot⟩⟩
      have hkeep := (hplace.bounds v hmem).2.2 (hasSlot_iff.mp hslot)
      rw [if_neg fun h => ?_, if_pos hp, hkeep]
      have := (inPass_iff.mp h).2
      rw [hslot] at this
      exact Bool.false_ne_true this.symm
  · rw [if_neg hp, if_neg fun h => hp (inPass_iff.mp h).1]

lemma granted_both {p : Var → Bool} {place₁ place₂ : String → ℕ}
    (hn : (vars.map Var.name).Nodup)
    (h₁ : Granted limit place₁ used (vars.filter (inPass p true)))
    (h₂ : Granted limit place₂ (taken place₁ used (vars.filter (inPass p true)))
      (vars.filter (inPass p false))) :
    ∃ place, (∀ v ∈ vars.filter (inPass p true), place v.name = place₁ v.name) ∧
      (∀ v ∈ vars.filter (inPass p false), place v.name = place₂ v.name) ∧
      Granted limit place used (inOrder p vars) := by
  obtain ⟨place, hp₁, hp₂⟩ := exists_places place₁ place₂ (inPass_names hn)
  refine ⟨place, hp₁, hp₂, granted_append.mpr ⟨?_, ?_⟩⟩
  · exact granted_congr (fun v hv => (hp₁ v hv).symm) h₁
  · rw [taken_congr hp₁]
    exact granted_congr (fun v hv => (hp₂ v hv).symm) h₂

lemma allocateSlots_ok {heap : ℕ → BitVec 32} (hlimit : limit < 2 ^ 32)
    (hsmall : ∀ v ∈ vars, v.type = type → Small limit v) (hn : (vars.map Var.name).Nodup)
    (hok : allocateSlots heap vars type limit = .ok vars') :
    ∃ place, vars' = vars.map (Var.assign (hasType type) place) ∧
      Granted limit place ∅ (inOrder (hasType type) vars) := by
  obtain ⟨⟨vars₁, a₁⟩, h₁, hok⟩ := bind_eq_ok.mp hok
  obtain ⟨⟨vars₂, a₂⟩, h₂, hok⟩ := bind_eq_ok.mp hok
  cases hok
  obtain ⟨place₁, rfl, hg₁, ha₁⟩ := allocatePass_ok hlimit (holds_init heap limit) hsmall hn h₁
  rw [map_assign_given hg₁] at h₂
  obtain ⟨place₂, rfl, hg₂, -⟩ := allocatePass_ok hlimit ha₁ hsmall hn h₂
  obtain ⟨place, hp₁, hp₂, hg⟩ := granted_both hn hg₁ hg₂
  refine ⟨place, ?_, hg⟩
  rw [← map_assign_both (granted_append.mp hg).1]
  refine List.map_congr_left fun v hv => ?_
  unfold Var.assign
  split_ifs with hsel
  · rw [hp₂ v (List.mem_filter.mpr ⟨hv, hsel⟩)]
  · rfl

lemma allocateSlots_of_granted {heap : ℕ → BitVec 32} (hlimit : limit < 2 ^ 32)
    (hsmall : ∀ v ∈ vars, v.type = type → Small limit v)
    (hplace : Granted limit place ∅ (inOrder (hasType type) vars)) :
    allocateSlots heap vars type limit = .ok (vars.map (Var.assign (hasType type) place)) := by
  obtain ⟨hg₁, hg₂⟩ := granted_append.mp hplace
  obtain ⟨a₁, h₁, ha₁⟩ := allocatePass_of_granted hlimit (holds_init heap limit) hsmall hg₁
  obtain ⟨a₂, h₂, -⟩ := allocatePass_of_granted hlimit ha₁ hsmall hg₂
  rw [map_assign_given hg₁] at h₁
  rw [map_assign_both hg₁] at h₂
  exact bind_eq_ok.mpr ⟨_, h₁, bind_eq_ok.mpr ⟨_, h₂, rfl⟩⟩

end

end KernelModel.Glsl
