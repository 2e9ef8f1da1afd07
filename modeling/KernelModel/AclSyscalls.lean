import KernelModel.AclMap

/-!
The system calls on access control lists, and that they pass on no permission the caller does
not have.

Reference counts are left out: a call releases the handles it looked up, save the first one when
it has no list.
-/

namespace KernelModel.Acls

open Ids

def errorInvalidArgument (index : BitVec 64) : Error := -(0x0002 ||| (index <<< 16))
def errorInvalidHandle : Error := -0x0004
def errorNoAcl : Error := -0x0005
def errorDenied : Error := -0x0006

def handleTypeAny : ℕ := 0

/-- The handles with their lists, the ids, and for each process its user and its group. -/
structure System where
  handle : ℕ → Option (Option Acl)
  ids : Tables
  uid : ℕ → Id
  gid : ℕ → Id
  aclRequestCallback : Option (ℕ → ℕ → BitVec 64 → Error)

namespace System

/-- `handle_lookup_and_acquire`: the list of the handle, if there is such a handle. -/
def lookup (s : System) (id type : ℕ) : Option (Option Acl) :=
  if type ≠ handleTypeAny ∧ type ≠ handleIdGetType id then none else s.handle id

def setAcl (s : System) (id : ℕ) (acl : Acl) : System :=
  { s with handle := Function.update s.handle id (some (some acl)) }

end System

variable {t : ℕ}

/-- The common start of the system calls: the list of the handle and the process meant. -/
def resolve (t : ℕ) (s : System) (caller handleId processHandleId : ℕ) : Except Error (Acl × ℕ) :=
  match s.lookup handleId handleTypeAny with
  | none => .error errorInvalidHandle
  | some none => .error errorNoAcl
  | some (some acl) =>
    if processHandleId ≠ 0 then
      match s.lookup processHandleId t with
      | none => .error errorInvalidHandle
      | some _ => .ok (acl, processHandleId)
    else .ok (acl, caller)

def syscallAclGetPermissions (t : ℕ) (s : System) (caller handleId processHandleId : ℕ) :
    Error × System :=
  match resolve t s caller handleId processHandleId with
  | .error e => (e, s)
  | .ok (acl, process) =>
    let r := aclGet acl process
    (r.1, s.setAcl handleId r.2)

def syscallAclSetPermissions (t : ℕ) (s : System) (caller handleId processHandleId : ℕ)
    (clear set : BitVec 64) : Error × System :=
  if clear &&& ~~~aclPermissionMask ≠ 0 then (errorInvalidArgument 2, s)
  else if set &&& ~~~aclPermissionMask ≠ 0 then (errorInvalidArgument 3, s)
  else
    match resolve t s caller handleId processHandleId with
    | .error e => (e, s)
    | .ok (acl, process) =>
      let flags := processGetIdFlags s.ids (s.uid caller) (s.gid caller)
      if flags &&& idFlagRootAcl = 0 then
        let r := aclGet acl caller
        (errorOk, s.setAcl handleId (aclSet r.2 process clear (set &&& r.1)))
      else (errorOk, s.setAcl handleId (aclSet acl process clear set))

def syscallAclRequestPermissions (t : ℕ) (s : System) (caller handleId processHandleId : ℕ)
    (flags : BitVec 64) : Error × System :=
  if flags &&& ~~~aclPermissionMask ≠ 0 then (errorInvalidArgument 2, s)
  else
    match resolve t s caller handleId processHandleId with
    | .error e => (e, s)
    | .ok (acl, process) =>
      let out :=
        match s.aclRequestCallback with
        | some callback => callback handleId process flags
        | none => errorDenied
      if out = errorOk then (out, s.setAcl handleId (aclSet acl process 0 flags)) else (out, s)

/-! ### Runs of system calls -/

inductive Request
  | get
  | set (clear set : BitVec 64)
  | request (flags : BitVec 64)

/-- A system call: who makes it, on which handle and for which process. -/
structure Syscall (t : ℕ) where
  caller : Process t
  handleId : ℕ
  processHandleId : ℕ
  request : Request

def System.step (s : System) (c : Syscall t) : System :=
  match c.request with
  | .get => (syscallAclGetPermissions t s c.caller.id c.handleId c.processHandleId).2
  | .set clear set =>
    (syscallAclSetPermissions t s c.caller.id c.handleId c.processHandleId clear set).2
  | .request flags =>
    (syscallAclRequestPermissions t s c.caller.id c.handleId c.processHandleId flags).2

def System.run (s : System) (calls : List (Syscall t)) : System := calls.foldl System.step s

/-- A process has a permission on a handle. -/
def System.Has (s : System) (process : Process t) (handleId bit : ℕ) : Prop :=
  ∃ acl, s.handle handleId = some (some acl) ∧ (aclGet acl process.id).1.getLsbD bit = true

/-- The kernel's process has all permissions everywhere. -/
def Process.IsKernel (process : Process t) : Prop := handleIdGetIndex process.id = 0

/-- The root right on access control lists. -/
def System.RootAcl (s : System) (process : Process t) : Prop :=
  processGetIdFlags s.ids (s.uid process.id) (s.gid process.id) &&& idFlagRootAcl ≠ 0

/-- Every list of the system is as its functions leave it. -/
def System.Coherent (s : System) : Prop :=
  ∀ id acl, s.handle id = some (some acl) → Acls.Coherent acl

/-! ### One call -/

variable {s : System}

lemma resolve_ok {caller handleId processHandleId : ℕ} {r : Acl × ℕ}
    (h : resolve t s caller handleId processHandleId = .ok r) :
    s.handle handleId = some (some r.1) := by
  have hlookup : s.lookup handleId handleTypeAny = s.handle handleId := by simp [System.lookup]
  rw [resolve, hlookup] at h
  cases hh : s.handle handleId with
  | none => simp [hh] at h
  | some a =>
    cases a with
    | none => simp [hh] at h
    | some acl =>
      simp only [hh] at h
      split at h
      · split at h
        · cases h
        · cases h
          rfl
      · cases h
        rfl

lemma step_cases (c : Syscall t) (hroot : ¬ s.RootAcl c.caller)
    (hcallback : s.aclRequestCallback = none) :
    s.step c = s ∨ ∃ acl, s.handle c.handleId = some (some acl) ∧
      ((∃ process, s.step c = s.setAcl c.handleId (aclGet acl process).2) ∨
        ∃ process clear set, s.step c = s.setAcl c.handleId
          (aclSet (aclGet acl c.caller.id).2 process clear
            (set &&& (aclGet acl c.caller.id).1))) := by
  obtain ⟨caller, handleId, processHandleId, request⟩ := c
  cases request with
  | get =>
    simp only [System.step, syscallAclGetPermissions]
    cases hr : resolve t s caller.id handleId processHandleId with
    | error e => exact .inl rfl
    | ok r => exact .inr ⟨r.1, resolve_ok hr, .inl ⟨r.2, rfl⟩⟩
  | set clear set =>
    simp only [System.step, syscallAclSetPermissions]
    split
    · exact .inl rfl
    split
    · exact .inl rfl
    cases hr : resolve t s caller.id handleId processHandleId with
    | error e => exact .inl rfl
    | ok r =>
      have hflags := not_not.mp hroot
      simp only [hflags, if_true]
      exact .inr ⟨r.1, resolve_ok hr, .inr ⟨r.2, clear, set, rfl⟩⟩
  | request flags =>
    simp only [System.step, syscallAclRequestPermissions, hcallback]
    split
    · exact .inl rfl
    cases hr : resolve t s caller.id handleId processHandleId with
    | error e => exact .inl rfl
    | ok r =>
      have hdenied : ¬ (errorDenied = errorOk) := by decide
      left
      simp only [if_neg hdenied]

lemma setAcl_coherent (h : s.Coherent) {id : ℕ} {acl : Acl} (ha : Coherent acl) :
    (s.setAcl id acl).Coherent := by
  intro id' acl' h'
  by_cases hid : id' = id
  · subst hid
    simp only [System.setAcl, Function.update_self, Option.some.injEq] at h'
    exact h' ▸ ha
  · simp only [System.setAcl, Function.update_of_ne hid] at h'
    exact h id' acl' h'

lemma has_setAcl {id : ℕ} {acl acl' : Acl} (hacl : s.handle id = some (some acl))
    {process q : Process t} {handleId bit : ℕ}
    (hbit : (aclGet acl' process.id).1.getLsbD bit = true →
      (aclGet acl process.id).1.getLsbD bit = true ∨ (aclGet acl q.id).1.getLsbD bit = true)
    (h : (s.setAcl id acl').Has process handleId bit) :
    s.Has process handleId bit ∨ s.Has q handleId bit := by
  obtain ⟨a, ha, hb⟩ := h
  by_cases hid : handleId = id
  · subst hid
    simp only [System.setAcl, Function.update_self, Option.some.injEq] at ha
    subst ha
    exact (hbit hb).imp (fun h => ⟨acl, hacl, h⟩) fun h => ⟨acl, hacl, h⟩
  · simp only [System.setAcl, Function.update_of_ne hid] at ha
    exact .inl ⟨a, ha, hb⟩

section

variable (c : Syscall t) (hs : s.Coherent) (hroot : ¬ s.RootAcl c.caller)
  (hcallback : s.aclRequestCallback = none)

include hs hroot hcallback

lemma System.step_coherent : (s.step c).Coherent := by
  rcases step_cases c hroot hcallback with heq |
    ⟨acl, hacl, ⟨process, heq⟩ | ⟨process, clear, set, heq⟩⟩
  · rwa [heq]
  · rw [heq]
    exact setAcl_coherent hs (aclGet_coherent (hs _ _ hacl) process)
  · rw [heq]
    exact setAcl_coherent hs
      (aclSet_coherent (aclGet_coherent (hs _ _ hacl) _) process clear _)

omit hs in
lemma System.step_frame : (s.step c).ids = s.ids ∧ (s.step c).uid = s.uid ∧ (s.step c).gid = s.gid ∧
    (s.step c).aclRequestCallback = none := by
  rcases step_cases c hroot hcallback with heq |
    ⟨acl, hacl, ⟨process, heq⟩ | ⟨process, clear, set, heq⟩⟩
  all_goals
    rw [heq]
    exact ⟨rfl, rfl, rfl, hcallback⟩

/-- **One call** gives a permission only if its caller has it. -/
lemma System.has_of_step {process : Process t} {handleId bit : ℕ}
    (h : (s.step c).Has process handleId bit) :
    s.Has process handleId bit ∨ s.Has c.caller handleId bit := by
  rcases step_cases c hroot hcallback with heq | ⟨acl, hacl, ⟨q, heq⟩ | ⟨q, clear, set, heq⟩⟩
  · rw [heq] at h
    exact .inl h
  · rw [heq] at h
    have hc := hs _ _ hacl
    refine has_setAcl hacl (fun hb => .inl ?_) h
    rwa [aclGet_fst (aclGet_coherent hc q), permissions, aclGet_tree, ← permissions,
      ← aclGet_fst hc] at hb
  · rw [heq] at h
    have hc := hs _ _ hacl
    refine has_setAcl hacl (fun hb => ?_) h
    rw [aclGet_fst (aclSet_coherent (aclGet_coherent hc _) q clear _), permissions_aclSet] at hb
    have hperm : ∀ key, permissions (aclGet acl c.caller.id).2 key = permissions acl key := by
      intro key
      rw [permissions, aclGet_tree, ← permissions]
    rw [hperm, ← aclGet_fst hc] at hb
    split at hb
    · simp only [BitVec.getLsbD_or, BitVec.getLsbD_and, Bool.or_eq_true, Bool.and_eq_true] at hb
      exact hb.imp And.left And.right
    · exact .inl hb

end

/-! ### Runs -/

/-- The calls come from processes other than the kernel's, without the root right. -/
def System.Unprivileged (s : System) (calls : List (Syscall t)) : Prop :=
  ∀ c ∈ calls, ¬ c.caller.IsKernel ∧ ¬ s.RootAcl c.caller

lemma System.run_append (s : System) (as bs : List (Syscall t)) :
    s.run (as ++ bs) = (s.run as).run bs := by
  simp [System.run]

lemma System.run_inv : ∀ {calls : List (Syscall t)} {s : System}, s.Coherent →
    s.aclRequestCallback = none → s.Unprivileged calls →
    (s.run calls).Coherent ∧ (s.run calls).aclRequestCallback = none ∧
      ∀ q : Process t, (s.run calls).RootAcl q ↔ s.RootAcl q
  | [], _, hs, hcallback, _ => ⟨hs, hcallback, fun _ => Iff.rfl⟩
  | c :: calls, s, hs, hcallback, hun => by
    have hroot := (hun c (List.mem_cons_self ..)).2
    obtain ⟨hids, huid, hgid, hcb⟩ := System.step_frame c hroot hcallback
    have hright : ∀ q : Process t, (s.step c).RootAcl q ↔ s.RootAcl q := by
      intro q
      rw [System.RootAcl, System.RootAcl, hids, huid, hgid]
    have hun' : (s.step c).Unprivileged calls := by
      intro d hd
      rw [hright]
      exact hun d (List.mem_cons_of_mem _ hd)
    obtain ⟨h1, h2, h3⟩ := System.run_inv (System.step_coherent c hs hroot hcallback) hcb hun'
    exact ⟨h1, h2, fun q => (h3 q).trans (hright q)⟩

/-- **No escalation.** In every run of unprivileged calls a process gets a permission only in a
call whose caller has it at that moment; so one that no process but the kernel's has at the start
is never had by any other. -/
theorem no_escalation (s : System) (calls : List (Syscall t)) (hs : s.Coherent)
    (hcallback : s.aclRequestCallback = none) (hun : s.Unprivileged calls) :
    (∀ before c later, calls = before ++ c :: later → ∀ (process : Process t) (handleId bit : ℕ),
      (s.run (before ++ [c])).Has process handleId bit →
      ¬ (s.run before).Has process handleId bit → (s.run before).Has c.caller handleId bit) ∧
    ∀ handleId bit, (∀ process : Process t, ¬ process.IsKernel → ¬ s.Has process handleId bit) →
      ∀ process : Process t, ¬ process.IsKernel → ¬ (s.run calls).Has process handleId bit := by
  have hgain : ∀ before c later, calls = before ++ c :: later →
      ∀ (process : Process t) (handleId bit : ℕ),
      (s.run (before ++ [c])).Has process handleId bit →
      (s.run before).Has process handleId bit ∨ (s.run before).Has c.caller handleId bit := by
    rintro before c later rfl process handleId bit h
    obtain ⟨h1, h2, h3⟩ := System.run_inv hs hcallback fun d hd => hun d (List.mem_append_left _ hd)
    have hroot := (hun c (by simp)).2
    rw [← h3] at hroot
    rw [System.run_append] at h
    exact System.has_of_step c h1 hroot h2 h
  refine ⟨fun before c later heq process handleId bit h hnot =>
    (hgain before c later heq process handleId bit h).resolve_left hnot, ?_⟩
  intro handleId bit hinit
  -- over the prefixes of the run
  have hprefix : ∀ before later, calls = before ++ later → ∀ process : Process t,
      ¬ process.IsKernel → ¬ (s.run before).Has process handleId bit := by
    intro before
    induction before using List.reverseRecOn with
    | nil => exact fun _ _ => hinit
    | append_singleton before c ih =>
      intro later heq process hp h
      rw [List.append_assoc] at heq
      rcases hgain before c later heq process handleId bit h with h | h
      · exact ih _ heq process hp h
      · exact ih _ heq c.caller (hun c (by rw [heq]; simp)).1 h
  exact hprefix calls [] (by simp)

/-- A process with the permissions `6` on a handle, and another process. -/
def shared : System :=
  { handle := fun id =>
      if id = 0x20002 then some (some (aclSet aclCreate 0x10001 0 6))
      else if id = 0x20001 then some none else none
    ids := init
    uid := fun _ => 0
    gid := fun _ => 0
    aclRequestCallback := none }

def grant : Syscall 1 := ⟨⟨0x10001, rfl⟩, 0x20002, 0x20001, .set 0 7⟩

lemma shared_coherent : shared.Coherent := by
  intro id acl h
  simp only [shared] at h
  split at h
  · cases h
    exact aclSet_coherent aclCreate_coherent _ _ _
  · split at h <;> simp at h

lemma shared_not_has (process : Process 1) (hp : ¬ process.IsKernel) :
    ¬ shared.Has process 0x20002 0 := by
  rintro ⟨acl, hacl, hb⟩
  obtain rfl : aclSet aclCreate 0x10001 0 6 = acl := by simpa [shared] using hacl
  rw [aclGet_fst (aclSet_coherent aclCreate_coherent _ _ _), permissions_aclSet] at hb
  rw [Process.IsKernel] at hp
  split at hb <;> simp [permissions, hp, aclCreate] at hb

/-- The process passes on what it has, and no more. -/
theorem grant_no_escalation : (shared.run [grant]).Has (t := 1) ⟨0x20001, rfl⟩ 0x20002 1 ∧
    ¬ (shared.run [grant]).Has (t := 1) ⟨0x20001, rfl⟩ 0x20002 0 := by
  refine ⟨⟨_, rfl, by decide⟩, ?_⟩
  refine (no_escalation shared [grant] shared_coherent rfl ?_).2 0x20002 0 shared_not_has _ ?_
  · intro c hc
    rw [List.mem_singleton] at hc
    subst hc
    exact ⟨by simp [Process.IsKernel, grant, handleIdGetIndex], not_not.mpr (by decide)⟩
  · simp [Process.IsKernel, handleIdGetIndex]

end KernelModel.Acls
