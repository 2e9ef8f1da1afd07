import KernelModel.Ids

/-!
Who passes the permission checks of the file system.

For registered ids the bypass needs the flag, and the flag needs a call that set it. The error
code that stands for a missing id has the bit of the flag.
-/

namespace KernelModel.Ids

/-! ### Both tables alike -/

/-- The flags of an id, if it is registered. -/
def flagsOf (s : Tables) : Kind → Id → Option IdFlags
  | .user, id => (s.uidTree id).map UidData.flags
  | .group, id => (s.gidTree id).map GidData.flags

lemma uidGetFlags_eq (s : Tables) (uid : Id) :
    uidGetFlags s uid = (flagsOf s .user uid).getD errorNotFound := by
  rw [uidGetFlags, flagsOf]
  cases s.uidTree uid <;> rfl

lemma gidGetFlags_eq (s : Tables) (gid : Id) :
    gidGetFlags s gid = (flagsOf s .group gid).getD errorNotFound := by
  rw [gidGetFlags, flagsOf]
  cases s.gidTree gid <;> rfl

/-- What a call does to the flags of an id. -/
def flagsStep (k : Kind) (id : Id) (f : Option IdFlags) : Call → Option IdFlags
  | .create k' id' _ => if k' = k ∧ id' = id then some (f.getD 0) else f
  | .delete k' id' => if k' = k ∧ id' = id then none else f
  | .setFlags k' id' clear set =>
    if k' = k ∧ id' = id then f.map fun f => (f &&& ~~~clear) ||| set else f
  | .addGroup _ _ => f
  | .removeGroup _ _ => f

lemma flagsOf_update_user (s : Tables) (uid : Id) (d : Option UidData) (k : Kind) (id : Id) :
    flagsOf { s with uidTree := Function.update s.uidTree uid d } k id
      = if Kind.user = k ∧ uid = id then d.map UidData.flags else flagsOf s k id := by
  cases k with
  | group => simp [flagsOf]
  | user =>
    by_cases hid : uid = id
    · subst hid
      simp [flagsOf]
    · simp [flagsOf, hid, Function.update_of_ne (Ne.symm hid)]

lemma flagsOf_update_group (s : Tables) (gid : Id) (d : Option GidData) (k : Kind) (id : Id) :
    flagsOf { s with gidTree := Function.update s.gidTree gid d } k id
      = if Kind.group = k ∧ gid = id then d.map GidData.flags else flagsOf s k id := by
  cases k with
  | user => simp [flagsOf]
  | group =>
    by_cases hid : gid = id
    · subst hid
      simp [flagsOf]
    · simp [flagsOf, hid, Function.update_of_ne (Ne.symm hid)]

lemma flagsOf_step (s : Tables) (c : Call) (k : Kind) (id : Id) :
    flagsOf (step s c) k id = flagsStep k id (flagsOf s k id) c := by
  cases c with
  | create k' id' name =>
    cases k' with
    | user =>
      by_cases hid : Kind.user = k ∧ id' = id
      · obtain ⟨rfl, rfl⟩ := hid
        cases h : s.uidTree id' <;> simp [step, uidCreate, flagsStep, flagsOf, h]
      · cases h : s.uidTree id' <;> simp [step, uidCreate, flagsStep, flagsOf_update_user, h, hid]
    | group =>
      by_cases hid : Kind.group = k ∧ id' = id
      · obtain ⟨rfl, rfl⟩ := hid
        cases h : s.gidTree id' <;> simp [step, gidCreate, flagsStep, flagsOf, h]
      · cases h : s.gidTree id' <;> simp [step, gidCreate, flagsStep, flagsOf_update_group, h, hid]
  | delete k' id' =>
    cases k' with
    | user =>
      by_cases hid : Kind.user = k ∧ id' = id
      · obtain ⟨rfl, rfl⟩ := hid
        cases h : s.uidTree id' <;> simp [step, uidDelete, flagsStep, flagsOf, h]
      · cases h : s.uidTree id' <;> simp [step, uidDelete, flagsStep, flagsOf_update_user, h, hid]
    | group =>
      by_cases hid : Kind.group = k ∧ id' = id
      · obtain ⟨rfl, rfl⟩ := hid
        cases h : s.gidTree id' <;> simp [step, gidDelete, flagsStep, flagsOf, h]
      · cases h : s.gidTree id' <;> simp [step, gidDelete, flagsStep, flagsOf_update_group, h, hid]
  | setFlags k' id' clear set =>
    cases k' with
    | user =>
      by_cases hid : Kind.user = k ∧ id' = id
      · obtain ⟨rfl, rfl⟩ := hid
        cases h : s.uidTree id' <;> simp [step, uidSetFlags, flagsStep, flagsOf, h]
      · cases h : s.uidTree id' <;> simp [step, uidSetFlags, flagsStep, flagsOf_update_user, h, hid]
    | group =>
      by_cases hid : Kind.group = k ∧ id' = id
      · obtain ⟨rfl, rfl⟩ := hid
        cases h : s.gidTree id' <;> simp [step, gidSetFlags, flagsStep, flagsOf, h]
      · cases h : s.gidTree id' <;>
          simp [step, gidSetFlags, flagsStep, flagsOf_update_group, h, hid]
  | addGroup uid gid =>
    cases h : s.uidTree uid with
    | none => simp [step, uidAddGroup, flagsStep, h]
    | some d =>
      simp only [step, uidAddGroup, flagsStep, h]
      split
      · rfl
      · rw [flagsOf_update_user]
        by_cases hid : Kind.user = k ∧ uid = id
        · obtain ⟨rfl, rfl⟩ := hid
          simp [flagsOf, h]
        · rw [if_neg hid]
  | removeGroup uid gid =>
    cases h : s.uidTree uid with
    | none => simp [step, uidRemoveGroup, flagsStep, h]
    | some d =>
      simp only [step, uidRemoveGroup, flagsStep, h]
      split
      · rfl
      · rw [flagsOf_update_user]
        by_cases hid : Kind.user = k ∧ uid = id
        · obtain ⟨rfl, rfl⟩ := hid
          simp [flagsOf, h]
        · rw [if_neg hid]

/-! ### Histories -/

variable {calls : List Call} {k : Kind} {id : Id}

/-- The id is registered after the calls. -/
def Registered (calls : List Call) (k : Kind) (id : Id) : Prop :=
  flagsOf (after calls) k id ≠ none

/-- The id is registered, and a call has set its bypass flag since: the id has not been deleted
after that call, nor the flag been cleared. -/
def BypassSet (calls : List Call) (k : Kind) (id : Id) : Prop :=
  Registered calls k id ∧ ∃ before clear set later,
    calls = before ++ .setFlags k id clear set :: later ∧ Registered before k id ∧
    set.getLsbD 0 = true ∧ .delete k id ∉ later ∧
    ∀ clear' set', .setFlags k id clear' set' ∈ later → clear'.getLsbD 0 = true →
      set'.getLsbD 0 = true

lemma after_snoc (calls : List Call) (c : Call) : after (calls ++ [c]) = step (after calls) c := by
  simp [after]

lemma flagsOf_snoc (calls : List Call) (c : Call) (k : Kind) (id : Id) :
    flagsOf (after (calls ++ [c])) k id = flagsStep k id (flagsOf (after calls) k id) c := by
  rw [after_snoc, flagsOf_step]

lemma flagsOf_init (k : Kind) (id : Id) {f : IdFlags} (h : flagsOf init k id = some f) :
    f = 0 := by
  have hinit : flagsOf init k id = if id = 0 then some 0 else none := by
    cases k
    · simp only [flagsOf, init, gidCreate, uidCreate, uidAddGroup, Function.update_apply]
      split_ifs <;> simp_all
    · simp only [flagsOf, init, gidCreate, uidCreate, uidAddGroup, Function.update_apply]
      split_ifs <;> simp_all
  rw [hinit] at h
  split at h
  · exact (Option.some.inj h).symm
  · simp at h

lemma BypassSet.snoc {c : Call} (h : BypassSet calls k id) (hd : c ≠ .delete k id)
    (hc : ∀ clear set, c = .setFlags k id clear set → clear.getLsbD 0 = true →
      set.getLsbD 0 = true) (hr : Registered (calls ++ [c]) k id) :
    BypassSet (calls ++ [c]) k id := by
  obtain ⟨-, before, clear, set, later, rfl, hb, hs, hdel, hclr⟩ := h
  refine ⟨hr, before, clear, set, later ++ [c], by simp, hb, hs, ?_, ?_⟩
  · rw [List.mem_append, List.mem_singleton, not_or]
    exact ⟨hdel, Ne.symm hd⟩
  · intro clear' set' hm
    rcases List.mem_append.mp hm with hm | hm
    · exact hclr clear' set' hm
    · exact hc clear' set' (List.mem_singleton.mp hm).symm

lemma bypassSet_of_flag : ∀ {calls : List Call} {f : IdFlags},
    flagsOf (after calls) k id = some f → f.getLsbD 0 = true → BypassSet calls k id := by
  intro calls
  induction calls using List.reverseRecOn with
  | nil =>
    intro f hf hb
    rw [flagsOf_init k id hf] at hb
    simp at hb
  | append_singleton calls c ih =>
    intro f hf hb
    have hr : Registered (calls ++ [c]) k id := by
      rw [Registered, hf]
      simp
    rw [flagsOf_snoc] at hf
    cases c with
    | create k' id' name =>
      refine BypassSet.snoc ?_ (by simp) (by simp) hr
      simp only [flagsStep] at hf
      split at hf
      · cases hold : flagsOf (after calls) k id with
        | none =>
          rw [hold] at hf
          simp only [Option.getD_none, Option.some.injEq] at hf
          rw [← hf] at hb
          simp at hb
        | some g =>
          rw [hold, Option.getD_some] at hf
          exact ih (hold.trans hf) hb
      · exact ih hf hb
    | delete k' id' =>
      simp only [flagsStep] at hf
      split at hf
      · simp at hf
      · rename_i hid
        refine BypassSet.snoc (ih hf hb) ?_ (by simp) hr
        rintro ⟨⟩
        exact hid ⟨rfl, rfl⟩
    | setFlags k' id' clear set =>
      simp only [flagsStep] at hf
      split at hf
      · rename_i hid
        obtain ⟨rfl, rfl⟩ := hid
        obtain ⟨g, hg, rfl⟩ := Option.map_eq_some_iff.mp hf
        cases hset : set.getLsbD 0 with
        | true =>
          exact ⟨hr, calls, clear, set, [], rfl, by rw [Registered, hg]; simp, hset, by simp,
            by simp⟩
        | false =>
          -- the flag was there before, and this call keeps it
          simp only [BitVec.getLsbD_or, BitVec.getLsbD_and, BitVec.getLsbD_not, hset,
            Bool.or_false, Bool.and_eq_true] at hb
          refine BypassSet.snoc (ih hg hb.1) (by simp) ?_ hr
          rintro clear' set' ⟨⟩ hclear
          rw [hclear] at hb
          simp at hb
      · rename_i hid
        refine BypassSet.snoc (ih hf hb) (by simp) ?_ hr
        rintro clear' set' ⟨⟩
        exact absurd ⟨rfl, rfl⟩ hid
    | addGroup uid gid => exact BypassSet.snoc (ih hf hb) (by simp) (by simp) hr
    | removeGroup uid gid => exact BypassSet.snoc (ih hf hb) (by simp) (by simp) hr

/-! ### Who bypasses -/

/-- The flags that an id of one of the tables has for those who ask. -/
def getFlags (s : Tables) : Kind → Id → IdFlags
  | .user, id => uidGetFlags s id
  | .group, id => gidGetFlags s id

lemma getFlags_eq (s : Tables) (k : Kind) (id : Id) :
    getFlags s k id = (flagsOf s k id).getD errorNotFound := by
  cases k
  · exact uidGetFlags_eq s id
  · exact gidGetFlags_eq s id

lemma and_one_ne_zero_iff (f : IdFlags) : f &&& 1 ≠ 0 ↔ f.getLsbD 0 = true := by
  have h : f &&& 1 = BitVec.setWidth 64 (BitVec.ofBool (f.getLsbD 0)) :=
    BitVec.and_one_eq_setWidth_ofBool_getLsbD
  rw [h]
  cases f.getLsbD 0 <;> decide

lemma vfsBypass_iff (s : Tables) (uid gid : Id) : vfsBypass s uid gid = true ↔
    (getFlags s .user uid).getLsbD 0 = true ∨ (getFlags s .group gid).getLsbD 0 = true := by
  rw [vfsBypass, idFlagBypassVfsPermissions, decide_eq_true_eq, ← Bool.or_eq_true,
    ← BitVec.getLsbD_or]
  exact and_one_ne_zero_iff _

/-- A missing id grants no flag. -/
def GrantsNothing (s : Tables) (k : Kind) (id : Id) : Prop :=
  getFlags s k id &&& idFlagBypassVfsPermissions = 0 ∧ getFlags s k id &&& idFlagRootAcl = 0

/-- Privileges come from registration: the bypass needs a registered id with the flag set, and a
missing id grants nothing. -/
def PrivilegesRegistered (calls : List Call) (uid gid : Id) : Prop :=
  (vfsBypass (after calls) uid gid = true →
    BypassSet calls .user uid ∨ BypassSet calls .group gid) ∧
  (¬ Registered calls .user uid → GrantsNothing (after calls) .user uid) ∧
  (¬ Registered calls .group gid → GrantsNothing (after calls) .group gid)

lemma not_grantsNothing (h : ¬ Registered calls k id) : ¬ GrantsNothing (after calls) k id := by
  rintro ⟨hb, -⟩
  rw [Registered, not_not] at h
  rw [getFlags_eq, h] at hb
  exact absurd hb (by decide)

/-- **Privileges need registered ids**, and hold whenever both are. -/
theorem privilegesRegistered_iff (calls : List Call) (uid gid : Id) :
    PrivilegesRegistered calls uid gid ↔
      Registered calls .user uid ∧ Registered calls .group gid := by
  constructor
  · rintro ⟨-, hu, hg⟩
    exact ⟨not_not.mp fun h => not_grantsNothing h (hu h),
      not_not.mp fun h => not_grantsNothing h (hg h)⟩
  · rintro ⟨hu, hg⟩
    refine ⟨fun h => ?_, fun h => absurd hu h, fun h => absurd hg h⟩
    obtain ⟨f, hf⟩ := Option.ne_none_iff_exists'.mp hu
    obtain ⟨g, hg⟩ := Option.ne_none_iff_exists'.mp hg
    rw [vfsBypass_iff, getFlags_eq, getFlags_eq, hf, hg] at h
    exact h.imp (bypassSet_of_flag hf) (bypassSet_of_flag hg)

/-- After the start a user that was never registered passes the checks of the file system. -/
theorem unregistered_bypasses :
    ¬ Registered [] .user 5 ∧ vfsBypass (after []) 5 0 = true ∧
      ¬ PrivilegesRegistered [] 5 0 := by
  have hreg : ¬ Registered [] .user 5 := by
    rw [Registered, not_not]
    decide
  refine ⟨hreg, by decide, fun h => ?_⟩
  exact not_grantsNothing hreg (h.2.1 hreg)

end KernelModel.Ids
