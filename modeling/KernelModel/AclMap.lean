import KernelModel.Acl

/-!
An access control list is a map from processes to permissions.

The cache only ever repeats what the tree says, so a lookup through it is a lookup in the tree,
and a call changes the permissions of one process only.
-/

namespace KernelModel.Acls

/-! ### Handles -/

lemma handleId_eq (id : ℕ) : id = handleIdGetIndex id * 2 ^ 16 + handleIdGetType id := by
  have htype : handleIdGetType id = id % 2 ^ 16 := Nat.and_two_pow_sub_one_eq_mod id 16
  rw [htype, handleIdGetIndex, Nat.shiftRight_eq_div_pow]
  omega

lemma Process.eq_of_index {t : ℕ} {p q : Process t}
    (h : handleIdGetIndex p.id = handleIdGetIndex q.id) : p = q := by
  have hid : p.id = q.id := by
    rw [handleId_eq p.id, handleId_eq q.id, h, p.type_eq, q.type_eq]
  cases p
  cases q
  simpa using hid

/-! ### The cache -/

/-- Every used entry of the cache is a copy of a node of the tree, in the slot of its key. -/
structure Coherent (acl : Acl) : Prop where
  entry : ∀ i, (acl.cache i).key ≠ 0 →
    slot (acl.cache i).key = i ∧ acl.tree (acl.cache i).key = some (acl.cache i).flags

/-- The permissions of a key by the tree alone. -/
def permissions (acl : Acl) (key : ℕ) : BitVec 64 :=
  if key = 0 then aclPermissionMask else (acl.tree key).getD 0

variable {acl : Acl}

lemma aclGet_fst (h : Coherent acl) (process : ℕ) :
    (aclGet acl process).1 = permissions acl (handleIdGetIndex process) := by
  rw [aclGet, permissions]
  set key := handleIdGetIndex process
  by_cases hk : key = 0
  · simp [hk]
  by_cases hc : (acl.cache (slot key)).key = key
  · have htree := (h.entry (slot key) (by rw [hc]; exact hk)).2
    rw [hc] at htree
    simp [hk, hc, htree]
  · cases htree : acl.tree key <;> simp [hk, hc]

lemma aclGet_tree (process : ℕ) : (aclGet acl process).2.tree = acl.tree := by
  rw [aclGet]
  split
  · rfl
  split
  · rfl
  split <;> rfl

lemma Coherent.update {cache : ℕ → CacheEntry} {tree : ℕ → Option (BitVec 64)} {i : ℕ}
    {e : CacheEntry}
    (h : ∀ j, j ≠ i → (cache j).key ≠ 0 →
      slot (cache j).key = j ∧ tree (cache j).key = some (cache j).flags)
    (he : e.key ≠ 0 → slot e.key = i ∧ tree e.key = some e.flags) :
    Coherent ⟨Function.update cache i e, tree⟩ := by
  refine ⟨fun j hj => ?_⟩
  by_cases hji : j = i
  · subst hji
    simp only [Function.update_self] at hj ⊢
    exact he hj
  · simp only [Function.update_of_ne hji] at hj ⊢
    exact h j hji hj

lemma aclGet_coherent (h : Coherent acl) (process : ℕ) : Coherent (aclGet acl process).2 := by
  rw [aclGet]
  split
  · exact h
  split
  · exact h
  split
  · exact h
  · rename_i hk _ _ flags htree
    exact Coherent.update (fun j _ hj => h.entry j hj) fun _ => ⟨rfl, htree⟩

lemma aclSet_coherent (h : Coherent acl) (process : ℕ) (clear set : BitVec 64) :
    Coherent (aclSet acl process clear set) := by
  rw [aclSet]
  set key := handleIdGetIndex process
  split
  · exact h
  rename_i hk
  refine Coherent.update (fun j hj hjk => ?_) fun he => ?_
  · -- an entry in another slot has another key
    obtain ⟨hslot, htree⟩ := h.entry j hjk
    have hne : (acl.cache j).key ≠ key := by
      rintro hkey
      rw [hkey] at hslot
      exact hj hslot.symm
    exact ⟨hslot, by rw [Function.update_of_ne hne]; exact htree⟩
  · have hother : (acl.cache (slot key)).key ≠ key → (acl.cache (slot key)).key ≠ 0 →
        slot (acl.cache (slot key)).key = slot key ∧
        Function.update acl.tree key (setNode (acl.tree key) clear set) (acl.cache (slot key)).key
          = some (acl.cache (slot key)).flags := by
      intro hne h0
      obtain ⟨hslot, htree⟩ := h.entry (slot key) h0
      exact ⟨hslot, by rw [Function.update_of_ne hne]; exact htree⟩
    revert he hother
    cases setNode (acl.tree key) clear set with
    | none =>
      intro he hother
      by_cases hc : (acl.cache (slot key)).key = key
      · simp [hc] at he
      · simp only [if_neg hc] at he ⊢
        exact hother hc he
    | some flags =>
      intro he hother
      by_cases hc : (acl.cache (slot key)).key = 0 ∨ (acl.cache (slot key)).key = key
      · simp [hc]
      · simp only [if_neg hc] at he ⊢
        exact hother (fun hkey => hc (.inr hkey)) he

lemma setNode_getD (node : Option (BitVec 64)) (clear set : BitVec 64) :
    (setNode node clear set).getD 0 = (node.getD 0 &&& ~~~clear) ||| set := by
  cases node with
  | none =>
    simp only [setNode]
    split
    · simp
    · rename_i hset
      simp [not_not.mp hset]
  | some flags =>
    simp only [setNode, Option.getD_some]
    split
    · rename_i hflags
      exact hflags.symm
    · rfl

/-- **A change** of one process leaves all others as they are. -/
lemma permissions_aclSet (process : ℕ) (clear set : BitVec 64) (key : ℕ) :
    permissions (aclSet acl process clear set) key =
      if key = handleIdGetIndex process ∧ key ≠ 0 then (permissions acl key &&& ~~~clear) ||| set
      else permissions acl key := by
  rw [aclSet]
  set k := handleIdGetIndex process
  by_cases hk : k = 0
  · rw [if_pos hk, if_neg fun h => h.2 (h.1.trans hk)]
  · rw [if_neg hk]
    by_cases hkey : key = k
    · rw [if_pos ⟨hkey, hkey ▸ hk⟩, hkey]
      simp only [permissions, if_neg hk, Function.update_self]
      exact setNode_getD _ clear set
    · rw [if_neg fun h => hkey h.1]
      simp [permissions, Function.update_of_ne hkey]

/-! ### Runs -/

variable {t : ℕ}

lemma step_coherent (h : Coherent acl) (c : Call t) : Coherent (step acl c) := by
  cases c with
  | get process => exact aclGet_coherent h process.id
  | set process clear set => exact aclSet_coherent h process.id clear set

lemma aclCreate_coherent : Coherent aclCreate := ⟨fun _ hi => absurd rfl hi⟩

lemma after_coherent (calls : List (Call t)) : Coherent (after calls) := by
  induction calls using List.reverseRecOn with
  | nil => exact aclCreate_coherent
  | append_singleton calls c ih =>
    rw [after, List.foldl_append]
    exact step_coherent ih c

/-- The permissions of a process by the calls that change them. -/
def granted (process : Process t) : List (Call t) → BitVec 64 :=
  List.foldl (fun flags c =>
    match c with
    | .get _ => flags
    | .set q clear set => if q = process then (flags &&& ~~~clear) ||| set else flags) 0

lemma permissions_after (calls : List (Call t)) (process : Process t)
    (hp : handleIdGetIndex process.id ≠ 0) :
    permissions (after calls) (handleIdGetIndex process.id) = granted process calls := by
  induction calls using List.reverseRecOn with
  | nil => simp [permissions, hp, after, aclCreate, granted]
  | append_singleton calls c ih =>
    rw [after, granted, List.foldl_append, List.foldl_append, ← after, ← granted]
    cases c with
    | get q =>
      rw [← ih]
      simp [permissions, step, aclGet_tree]
    | set q clear set =>
      simp only [List.foldl_cons, List.foldl_nil, step]
      rw [permissions_aclSet, ih]
      by_cases hq : q = process
      · simp [hq, hp]
      · rw [if_neg hq, if_neg fun h => hq (Process.eq_of_index h.1).symm]

/-- **An access control list is a permission map**: a lookup after any calls gives what the calls
on that process have set and cleared, whatever shares its cache slot; the kernel's process always
has all permissions. -/
theorem aclGet_after (calls : List (Call t)) (process : Process t) :
    (aclGet (after calls) process.id).1 =
      if handleIdGetIndex process.id = 0 then aclPermissionMask else granted process calls := by
  rw [aclGet_fst (after_coherent calls)]
  split
  · rename_i hp
    rw [hp, permissions, if_pos rfl]
  · rename_i hp
    exact permissions_after calls process hp

/-- Two processes of one slot. -/
example : (aclGet (after (t := 1) [.set ⟨0x10001, rfl⟩ 0 6, .set ⟨0x110001, rfl⟩ 0 5,
    .get ⟨0x110001, rfl⟩, .set ⟨0x10001, rfl⟩ 2 0]) 0x10001).1 = 4 := by decide

end KernelModel.Acls
