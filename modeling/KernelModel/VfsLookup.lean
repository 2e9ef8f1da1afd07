import KernelModel.VfsResolve

/-!
Lookups and their references.

A lookup follows the resolution of its path and keeps a ledger: the count of every node is what
it was, plus one for every child that was loaded, plus the references that the lookup holds at
the moment. At the end it should hold one to what it returns; two exits break this.
-/

namespace KernelModel.Vfs

open Recursion

/-- A node that stays when its count falls to zero. -/
def Stays (t : Tree) (n : ℕ) : Prop :=
  ((t.node n).parent ≠ none ∨ (t.node n).isVirtual = true) ∧ (t.node n).isTemporary = false

/-- The nodes in memory are a tree, drivers make nodes that are not there yet, and the nodes
without references are those that stay. -/
structure Sound (t : Tree) (s : State) : Prop where
  child_loaded : ∀ {n c}, c ∈ s.children n → s.loaded c = true
  child_parent : ∀ {n c}, c ∈ s.children n → (t.node c).parent = some n
  parent_child : ∀ {n p}, s.loaded n = true → (t.node n).parent = some p → n ∈ s.children p
  parent_loaded : ∀ {n p}, s.loaded n = true → (t.node n).parent = some p → s.loaded p = true
  disk_name : ∀ {n name c}, t.disk n name = some c → (t.node c).name = name
  disk_parent : ∀ {n name c}, t.disk n name = some c → (t.node c).parent = some n
  disk_kept : ∀ {n name c}, t.disk n name = some c → (t.node c).isTemporary = false
  unloaded : ∀ {n}, s.loaded n = false → s.rc n = 0
  kept : ∀ {n}, s.loaded n = true → s.rc n = 0 → Stays t n

/-- What has become of `s₀`: the children `steps` have been loaded where they were not, and the
references `held` are held. -/
structure Ledger (t : Tree) (s₀ s : State) (held steps : List ℕ) : Prop where
  sound : Sound t s
  same : ∀ n name, childOf t s n name = childOf t s₀ n name
  counts : ∀ n, s.rc n + (s₀.children n).length
    = s₀.rc n + (s.children n).length + held.count n
  fresh : ∀ n, ∃ new, s.children n = new ++ s₀.children n ∧ new.Nodup ∧
    ∀ c ∈ new, s₀.loaded c = false
  loaded_iff : ∀ n, s.loaded n = true ↔ s₀.loaded n = true ∨ n ∈ steps
  has_parent : ∀ n, s.loaded n = true → s₀.loaded n = false → (t.node n).parent ≠ none
  held_loaded : ∀ n ∈ held, s.loaded n = true
  stays : ∀ n, s.loaded n = true → s₀.rc n = 0 → Stays t n
  deleted : s.deleted = s₀.deleted

variable {t : Tree} {s s₀ s₁ : State} {held steps : List ℕ} {n c : ℕ} {name : List Char}

/-! ### A child that is loaded -/

lemma ne_of_not_loaded (hn : s.loaded n = true) (hc : s.loaded c = false) : c ≠ n := by
  rintro rfl
  rw [hn] at hc
  cases hc

lemma load_rc_parent (hne : c ≠ n) : (load s n c).rc n = s.rc n + 1 := by
  simp [load, Function.update_of_ne hne.symm]

lemma load_rc_child (hne : c ≠ n) : (load s n c).rc c = 1 := by
  simp [load, Function.update_of_ne hne]

lemma load_rc_of_ne {m : ℕ} (hm : m ≠ n) (hm' : m ≠ c) : (load s n c).rc m = s.rc m := by
  simp [load, Function.update_of_ne hm, Function.update_of_ne hm']

lemma load_children : (load s n c).children n = c :: s.children n :=
  Function.update_self ..

lemma load_children_of_ne {m : ℕ} (hm : m ≠ n) : (load s n c).children m = s.children m :=
  Function.update_of_ne hm ..

lemma mem_load_children {m x : ℕ} :
    x ∈ (load s n c).children m ↔ x ∈ s.children m ∨ m = n ∧ x = c := by
  by_cases hm : m = n
  · subst hm
    rw [load_children, List.mem_cons]
    tauto
  · rw [load_children_of_ne hm]
    tauto

lemma load_loaded : (load s n c).loaded c = true :=
  Function.update_self ..

lemma load_loaded_of_ne {m : ℕ} (hm : m ≠ c) : (load s n c).loaded m = s.loaded m :=
  Function.update_of_ne hm ..

lemma load_loaded_mono {m : ℕ} (hm : s.loaded m = true) : (load s n c).loaded m = true := by
  by_cases hmc : m = c
  · rw [hmc, load_loaded]
  · rw [load_loaded_of_ne hmc, hm]

lemma childOf_load (hname : (t.node c).name = name)
    (hnone : (s.children n).find? (fun c => (t.node c).name = name) = none)
    (hc : t.disk n name = some c) (m : ℕ) (name' : List Char) :
    childOf t (load s n c) m name' = childOf t s m name' := by
  unfold childOf
  by_cases hmn : m = n
  · subst hmn
    rw [load_children, List.find?_cons]
    by_cases hnm : name = name'
    · subst hnm
      simp [hname, hnone, hc]
    · simp [hname, hnm]
  · rw [load_children_of_ne hmn]

/-- What a driver makes is not in memory, for otherwise it would be among the children. -/
lemma Sound.not_loaded_of_disk (h : Sound t s)
    (hnone : (s.children n).find? (fun c => (t.node c).name = name) = none)
    (hc : t.disk n name = some c) : s.loaded c = false := by
  by_contra hl
  have hmem := h.parent_child (by simpa using hl) (h.disk_parent hc)
  have hother := List.find?_eq_none.mp hnone c hmem
  simp [h.disk_name hc] at hother

lemma Sound.load (h : Sound t s) (hn : s.loaded n = true)
    (hnone : (s.children n).find? (fun c => (t.node c).name = name) = none)
    (hc : t.disk n name = some c) : Sound t (load s n c) := by
  have hparent := h.disk_parent hc
  have hnew := h.not_loaded_of_disk hnone hc
  have hne := ne_of_not_loaded hn hnew
  refine
    { child_loaded := fun hx => ?_
      child_parent := fun hx => ?_
      parent_child := fun {m p} hm hp => ?_
      parent_loaded := fun {m p} hm hp => ?_
      disk_name := h.disk_name
      disk_parent := h.disk_parent
      disk_kept := h.disk_kept
      unloaded := fun {m} hm => ?_
      kept := fun {m} hm hrc => ?_ }
  · rcases mem_load_children.mp hx with hx | ⟨-, rfl⟩
    · exact load_loaded_mono (h.child_loaded hx)
    · exact load_loaded
  · rcases mem_load_children.mp hx with hx | ⟨rfl, rfl⟩
    · exact h.child_parent hx
    · exact hparent
  · rw [mem_load_children]
    by_cases hmc : m = c
    · subst hmc
      rw [hparent] at hp
      exact .inr ⟨(Option.some.inj hp).symm, rfl⟩
    · exact .inl (h.parent_child (by rwa [← load_loaded_of_ne hmc]) hp)
  · refine load_loaded_mono ?_
    by_cases hmc : m = c
    · subst hmc
      rw [hparent] at hp
      rwa [← Option.some.inj hp]
    · exact h.parent_loaded (by rwa [← load_loaded_of_ne hmc]) hp
  · have hmc : m ≠ c := by
      rintro rfl
      rw [load_loaded] at hm
      cases hm
    have hmn : m ≠ n := by
      rintro rfl
      rw [load_loaded_mono hn] at hm
      cases hm
    rw [load_rc_of_ne hmn hmc]
    exact h.unloaded (by rwa [← load_loaded_of_ne hmc])
  · by_cases hmn : m = n
    · subst hmn
      rw [load_rc_parent hne] at hrc
      omega
    · by_cases hmc : m = c
      · subst hmc
        rw [load_rc_child hne] at hrc
        cases hrc
      · rw [load_rc_of_ne hmn hmc] at hrc
        exact h.kept (by rwa [← load_loaded_of_ne hmc]) hrc

namespace Ledger

lemma refl (h : Sound t s) : Ledger t s s [] [] where
  sound := h
  same _ _ := rfl
  counts n := by simp
  fresh n := ⟨[], rfl, List.nodup_nil, by simp⟩
  loaded_iff n := by simp
  has_parent n hn hn' := by
    rw [hn] at hn'
    cases hn'
  held_loaded := by simp
  stays n := h.kept
  deleted := rfl

lemma loaded (h : Ledger t s₀ s held steps) (n : ℕ) (hn : s₀.loaded n = true) :
    s.loaded n = true := (h.loaded_iff n).mpr (.inl hn)

lemma more (h : Ledger t s₀ s held steps) (n : ℕ) :
    (s₀.children n).length ≤ (s.children n).length := by
  obtain ⟨new, hnew, -, -⟩ := h.fresh n
  rw [hnew, List.length_append]
  exact Nat.le_add_left _ _

lemma trans {held' steps' : List ℕ} (h : Ledger t s₀ s held steps)
    (h' : Ledger t s s₁ held' steps') : Ledger t s₀ s₁ (held' ++ held) (steps ++ steps') where
  sound := h'.sound
  same n name := (h'.same n name).trans (h.same n name)
  counts n := by
    have h₁ := h.counts n
    have h₂ := h'.counts n
    rw [List.count_append]
    omega
  fresh n := by
    obtain ⟨new, hchildren, hnodup, hnew⟩ := h.fresh n
    obtain ⟨new', hchildren', hnodup', hnew'⟩ := h'.fresh n
    refine ⟨new' ++ new, ?_, ?_, ?_⟩
    · rw [hchildren', hchildren, List.append_assoc]
    · -- the earlier ones are in memory when the later ones are loaded
      refine List.nodup_append.mpr ⟨hnodup', hnodup, fun c hc c' hc' heq => ?_⟩
      have hmem : c' ∈ s.children n := by
        rw [hchildren]
        exact List.mem_append_left _ hc'
      have hload := h.sound.child_loaded hmem
      rw [← heq, hnew' c hc] at hload
      cases hload
    · intro c hc
      rcases List.mem_append.mp hc with hc | hc
      · have hc' := hnew' c hc
        by_contra hload
        rw [h.loaded c (by simpa using hload)] at hc'
        cases hc'
      · exact hnew c hc
  loaded_iff n := by
    rw [h'.loaded_iff, h.loaded_iff, List.mem_append, or_assoc]
  has_parent n hn hn₀ := by
    by_cases hs : s.loaded n = true
    · exact h.has_parent n hs hn₀
    · exact h'.has_parent n hn (by simpa using hs)
  held_loaded n hn := by
    rcases List.mem_append.mp hn with hn | hn
    · exact h'.held_loaded n hn
    · exact h'.loaded n (h.held_loaded n hn)
  stays n hn hrc := by
    by_cases hs : s.rc n = 0
    · exact h'.stays n hn hs
    · refine h.stays n ?_ hrc
      by_contra hload
      exact hs (h.sound.unloaded (by simpa using hload))
  deleted := h'.deleted.trans h.deleted

lemma perm {held' : List ℕ} (h : Ledger t s₀ s held steps) (hp : held.Perm held') :
    Ledger t s₀ s held' steps :=
  { h with
    counts := fun n => by rw [h.counts n, hp.count_eq]
    held_loaded := fun n hn => h.held_loaded n (hp.mem_iff.mpr hn) }

lemma ref (h : Ledger t s₀ s held steps) (hn : s.loaded n = true) :
    Ledger t s₀ (vfsNodeRef s n) (n :: held) steps where
  sound :=
    { h.sound with
      unloaded := fun {m} hm => by
        have hm' : s.loaded m = false := hm
        have hne : m ≠ n := by
          rintro rfl
          rw [hn] at hm'
          cases hm'
        simpa [vfsNodeRef, hne] using h.sound.unloaded hm
      kept := fun {m} hm hrc => by
        by_cases hne : m = n
        · subst hne
          simp [vfsNodeRef] at hrc
        · exact h.sound.kept hm (by simpa [vfsNodeRef, hne] using hrc) }
  same := h.same
  counts m := by
    have hm := h.counts m
    by_cases hne : m = n
    · subst hne
      simp only [vfsNodeRef, Function.update_self, List.count_cons_self]
      omega
    · simp only [vfsNodeRef, Function.update_of_ne hne, List.count_cons_of_ne (Ne.symm hne)]
      omega
  fresh := h.fresh
  loaded_iff := h.loaded_iff
  has_parent := h.has_parent
  held_loaded m hm := by
    rcases List.mem_cons.mp hm with rfl | hm
    · exact hn
    · exact h.held_loaded m hm
  stays := h.stays
  deleted := h.deleted

lemma unref (h : Ledger t s₀ s (n :: held) steps) :
    Ledger t s₀ (vfsNodeUnref t s n) held steps := by
  have hn := h.counts n
  have hmore := h.more n
  have hload := h.held_loaded n (List.mem_cons_self ..)
  rw [List.count_cons_self] at hn
  -- a count that falls to zero was zero before, so the node stays
  have hunref : vfsNodeUnref t s n = { s with rc := Function.update s.rc n (s.rc n - 1) } := by
    unfold vfsNodeUnref
    simp only [Function.update_self]
    rw [if_neg]
    rintro ⟨hzero, hcond⟩
    obtain ⟨hpar, htmp⟩ := h.stays n hload (by omega)
    rcases hcond with ⟨hnone, hvirt⟩ | htemp
    · rcases hpar with hpar | hpar
      · exact hpar (Option.isNone_iff_eq_none.mp hnone)
      · exact hvirt hpar
    · rw [htmp] at htemp
      cases htemp
  have hcounts : ∀ m, (vfsNodeUnref t s n).rc m + (s₀.children m).length
      = s₀.rc m + (s.children m).length + held.count m := by
    intro m
    have hm := h.counts m
    rw [hunref]
    by_cases hne : m = n
    · subst hne
      simp only [Function.update_self]
      omega
    · simp only [Function.update_of_ne hne]
      rwa [List.count_cons_of_ne (Ne.symm hne)] at hm
  rw [hunref] at hcounts ⊢
  exact
    { sound :=
        { h.sound with
          unloaded := fun {m} hm => by
            have := h.sound.unloaded hm
            by_cases hne : m = n
            · subst hne
              simp [this]
            · simp [hne, this]
          kept := fun {m} hm hrc => by
            have := hcounts m
            have := h.more m
            exact h.stays m hm (by omega) }
      same := h.same
      counts := hcounts
      fresh := h.fresh
      loaded_iff := h.loaded_iff
      has_parent := h.has_parent
      held_loaded := fun m hm => h.held_loaded m (List.mem_cons_of_mem _ hm)
      stays := h.stays
      deleted := h.deleted }

lemma load (h : Ledger t s₀ s held steps) (hn : n ∈ held)
    (hnone : (s.children n).find? (fun c => (t.node c).name = name) = none)
    (hc : t.disk n name = some c) : Ledger t s₀ (load s n c) (c :: held) (steps ++ [c]) := by
  have hload := h.held_loaded n hn
  have hparent := h.sound.disk_parent hc
  have hnew := h.sound.not_loaded_of_disk hnone hc
  have hne := ne_of_not_loaded hload hnew
  have hnew₀ : s₀.loaded c = false := by
    by_contra hl
    rw [h.loaded c (by simpa using hl)] at hnew
    cases hnew
  refine
    { sound := h.sound.load hload hnone hc
      same := fun m name' => (childOf_load (h.sound.disk_name hc) hnone hc m name').trans
        (h.same m name')
      counts := fun m => ?_
      fresh := fun m => ?_
      loaded_iff := fun m => ?_
      has_parent := fun m hm hm₀ => ?_
      held_loaded := fun m hm => ?_
      stays := fun m hm hrc₀ => ?_
      deleted := h.deleted }
  · have hm := h.counts m
    by_cases hmn : m = n
    · subst hmn
      rw [load_rc_parent hne, load_children, List.length_cons, List.count_cons_of_ne hne]
      omega
    · by_cases hmc : m = c
      · subst hmc
        have hrc := h.sound.unloaded hnew
        have hheld : held.count m = 0 := by
          refine List.count_eq_zero_of_not_mem fun hmem => ?_
          rw [h.held_loaded m hmem] at hnew
          cases hnew
        rw [load_rc_child hne, load_children_of_ne hmn, List.count_cons_self]
        omega
      · rw [load_rc_of_ne hmn hmc, load_children_of_ne hmn, List.count_cons_of_ne (Ne.symm hmc)]
        exact hm
  · obtain ⟨new, hchildren, hnodup, hfresh⟩ := h.fresh m
    by_cases hmn : m = n
    · subst hmn
      have hnmem : c ∉ new := fun hmem => by
        have hload := h.sound.child_loaded (n := m) (c := c) (by
          rw [hchildren]
          exact List.mem_append_left _ hmem)
        rw [hnew] at hload
        cases hload
      refine ⟨c :: new, ?_, List.nodup_cons.mpr ⟨hnmem, hnodup⟩, ?_⟩
      · rw [load_children, hchildren, List.cons_append]
      · intro x hx
        rcases List.mem_cons.mp hx with rfl | hx
        · exact hnew₀
        · exact hfresh x hx
    · exact ⟨new, by rw [load_children_of_ne hmn, hchildren], hnodup, hfresh⟩
  · rw [List.mem_append, List.mem_singleton]
    by_cases hmc : m = c
    · subst hmc
      exact iff_of_true load_loaded (.inr (.inr rfl))
    · rw [load_loaded_of_ne hmc, h.loaded_iff]
      simp [hmc]
  · by_cases hmc : m = c
    · subst hmc
      rw [hparent]
      simp
    · exact h.has_parent m (by rwa [← load_loaded_of_ne hmc]) hm₀
  · rcases List.mem_cons.mp hm with rfl | hm
    · exact load_loaded
    · exact load_loaded_mono (h.held_loaded m hm)
  · by_cases hmc : m = c
    · subst hmc
      exact ⟨.inl (by simp [hparent]), h.sound.disk_kept hc⟩
    · exact h.stays m (by rwa [← load_loaded_of_ne hmc]) hrc₀

lemma again (h : Ledger t s₀ s held steps) (hc : s.loaded c = true) :
    Ledger t s₀ s held (steps ++ [c]) :=
  { h with
    loaded_iff := fun m => by
      rw [List.mem_append, ← or_assoc, ← h.loaded_iff, List.mem_singleton]
      exact (or_iff_left_of_imp fun hm => hm ▸ hc).symm }

lemma lookup (h : Ledger t s₀ s held steps) (hn : n ∈ held)
    (hc : childOf t s₀ n name = some c) : ∃ s', vfsNodeLookup t s n name = (some c, s') ∧
      Ledger t s₀ s' (c :: held) (steps ++ [c]) := by
  rw [← h.same, childOf] at hc
  unfold vfsNodeLookup
  cases hfind : (s.children n).find? (fun c => (t.node c).name = name) with
  | some c' =>
    rw [hfind, Option.some_or] at hc
    obtain rfl := Option.some.inj hc
    have hload := h.sound.child_loaded (List.mem_of_find?_eq_some hfind)
    exact ⟨_, rfl, (h.ref hload).again hload⟩
  | none =>
    rw [hfind, Option.none_or] at hc
    simp only [hc]
    exact ⟨_, rfl, h.load hn hfind hc⟩

lemma lookup_none (h : Ledger t s₀ s held steps) (hc : childOf t s₀ n name = none) :
    vfsNodeLookup t s n name = (none, s) := by
  rw [← h.same, childOf, Option.or_eq_none_iff] at hc
  unfold vfsNodeLookup
  rw [hc.1, hc.2]

/-- The children that are new have been stepped to, and each is counted at its parent. -/
lemma counts_new (h : Ledger t s₀ s held steps) (hs : Sound t s₀) : ∃ new : ℕ → List ℕ,
    (∀ n, s.rc n = s₀.rc n + (new n).length + held.count n) ∧ (∀ n, (new n).Nodup) ∧
      ∀ n c, c ∈ new n ↔ (c ∈ steps ∧ s₀.loaded c = false) ∧ (t.node c).parent = some n := by
  choose new hchildren hnodup hnew using h.fresh
  refine ⟨new, fun n => ?_, hnodup, fun n c => ⟨fun hc => ?_, ?_⟩⟩
  · have hcounts := h.counts n
    rw [hchildren, List.length_append] at hcounts
    omega
  · have hmem : c ∈ s.children n := by
      rw [hchildren]
      exact List.mem_append_left _ hc
    have hc₀ := hnew n c hc
    refine ⟨⟨?_, hc₀⟩, h.sound.child_parent hmem⟩
    refine ((h.loaded_iff c).mp (h.sound.child_loaded hmem)).resolve_left ?_
    simp [hc₀]
  · rintro ⟨⟨hstep, hc₀⟩, hparent⟩
    have hmem := h.sound.parent_child ((h.loaded_iff c).mpr (.inr hstep)) hparent
    rw [hchildren] at hmem
    refine (List.mem_append.mp hmem).resolve_right fun hold => ?_
    rw [hs.child_loaded hold] at hc₀
    cases hc₀

lemma parent_of_step (h : Ledger t s₀ s held steps) (hc : c ∈ steps) (hc₀ : s₀.loaded c = false) :
    ∃ n, (t.node c).parent = some n :=
  Option.ne_none_iff_exists'.mp (h.has_parent c ((h.loaded_iff c).mpr (.inr hc)) hc₀)

end Ledger

/-! ### Lookups follow the resolution -/

/-- What a lookup returns. -/
def Outcome.out : Outcome → Found
  | .found n => .node n
  | .linkFound => .linkFound
  | _ => .null

def Outcome.result (parent : Bool) (o : Outcome) : Result where
  out := o.out
  parent :=
    match o with
    | .missing n name => if parent then some (n, name) else none
    | _ => none

/-- The references that are left. -/
def Outcome.refs (e : Env) : Outcome → List ℕ
  | .found n => [n]
  | .cycle => [e.base]
  | _ => []

/-- A state in which a lookup can be called. -/
structure Ready (e : Env) (child : ℕ → List Char → Option ℕ) (s : State) (root : Option ℕ) :
    Prop where
  sound : Sound e.tree s
  same : ∀ n name, childOf e.tree s n name = child n name
  base : s.loaded e.base = true
  home : s.loaded e.home = true
  cwd : s.loaded e.cwd = true
  root : ∀ m ∈ root, s.loaded m = true

/-- The calls `recur` give what the resolution `r` says, by the steps `trail`. -/
structure Answers (e : Env) (child : ℕ → List Char → Option ℕ) (r : Query → Option Outcome)
    (trail : Query → List ℕ) (recur : Recur) : Prop where
  none : ∀ {s root path}, Ready e child s root → r (root, path) = none → recur s root path = none
  some : ∀ {s root path o}, Ready e child s root → r (root, path) = some o →
    ∃ s', recur s root path = some (s', o.out) ∧
      Ledger e.tree s s' (o.refs e) (trail (root, path))

section

variable {e : Env} {child : ℕ → List Char → Option ℕ} {r : Query → Option Outcome} {recur : Recur}
  {root : Option ℕ} {path : List Char} {o : Outcome} {trail : Query → List ℕ}

lemma Ready.later (h : Ready e child s₀ root) (hs : Ledger e.tree s₀ s held steps)
    {root' : Option ℕ}
    (hroot : ∀ m ∈ root', s.loaded m = true) : Ready e child s root' where
  sound := hs.sound
  same n name := (hs.same n name).trans (h.same n name)
  base := hs.loaded _ h.base
  home := hs.loaded _ h.home
  cwd := hs.loaded _ h.cwd
  root := hroot

lemma followLink_follows (hf : follows e n = true) : followLink e recur s n =
    (recur s (linkQuery e n).1 (linkQuery e n).2).map fun r =>
      match r.2 with
      | .node newRoot => (vfsNodeUnref e.tree r.1 n, .root newRoot)
      | _ => (r.1, .cleanup .null) := by
  simp only [follows, Bool.and_eq_true, Bool.not_eq_true', List.isEmpty_eq_false_iff] at hf
  obtain ⟨⟨⟨hstop, hfind⟩, hperm⟩, hpath⟩ := hf
  rw [followLink, if_pos hstop, if_neg (by simp [hfind]), if_neg (by simp [hperm]), if_neg hpath]
  rfl

lemma followLink_stops (hstop : e.stopsAt n = true) (hf : follows e n = false) :
    followLink e recur s n
      = some (s, .cleanup (if e.flags.findLinks then .linkFound else .null)) := by
  rw [followLink, if_pos hstop]
  by_cases hfind : e.flags.findLinks = true
  · simp [hfind]
  · by_cases hperm : e.hasReadPermissions n = true
    · have hpath : linkPath (e.tree.node n) = [] := by
        simpa [follows, hstop, hfind, hperm] using hf
      simp [hfind, hperm, hpath]
    · simp [hfind, hperm]

section

variable (ha : Answers e child r trail recur) (hready : Ready e child s₀ root)

include ha hready

lemma followLink_none (h : Ledger e.tree s₀ s (n :: held) steps) (hf : followed e r n = none) :
    followLink e recur s n = none := by
  obtain ⟨hfol, hr⟩ := followed_none hf
  rw [followLink_follows hfol, Option.map_eq_none_iff]
  refine ha.none (hready.later h fun m hm => ?_) hr
  exact h.sound.parent_loaded (h.held_loaded n (List.mem_cons_self ..)) hm

lemma recur_link (h : Ledger e.tree s₀ s (n :: held) steps) (hfol : follows e n = true)
    (ho : r (linkQuery e n) = some o) :
    ∃ s', recur s (linkQuery e n).1 (linkQuery e n).2 = some (s', o.out) ∧
      Ledger e.tree s₀ s' (o.refs e ++ n :: held) (steps ++ (asked e n).flatMap trail) := by
  obtain ⟨s', hs', hl⟩ := ha.some (hready.later h fun m hm =>
    h.sound.parent_loaded (h.held_loaded n (List.mem_cons_self ..)) hm) ho
  refine ⟨s', hs', ?_⟩
  rw [asked, if_pos hfol, List.flatMap_singleton]
  exact h.trans hl

omit ha hready in
lemma Ledger.here (h : Ledger e.tree s₀ s held steps) (hf : follows e n = false) :
    Ledger e.tree s₀ s held (steps ++ (asked e n).flatMap trail) := by
  rw [asked, if_neg (by simp [hf]), List.flatMap_nil, List.append_nil]
  exact h

omit ha hready in
lemma follows_of_not_stopsAt (hstop : ¬e.stopsAt n = true) : follows e n = false := by
  simp [follows, hstop]

lemma followLink_here {m : ℕ} (h : Ledger e.tree s₀ s (n :: held) steps)
    (hf : followed e r n = some (.here m)) :
    ∃ s', followLink e recur s n = some (s', .root m) ∧
      Ledger e.tree s₀ s' (m :: held) (steps ++ (asked e n).flatMap trail) := by
  unfold followed at hf
  split_ifs at hf with hstop hfol
  · obtain ⟨o, ho, hplace⟩ := Option.map_eq_some_iff.mp hf
    obtain ⟨s', hs', hl⟩ := recur_link ha hready h hfol ho
    cases o with
    | found m' =>
      cases hplace
      refine ⟨vfsNodeUnref e.tree s' n, ?_, (hl.perm (List.Perm.swap n m held)).unref⟩
      rw [followLink_follows hfol, hs']
      rfl
    | notFound => cases hplace
    | linkFound => cases hplace
    | missing _ _ => cases hplace
    | cycle => cases hplace
  · cases hf
  · cases hf
  · cases hf
    exact ⟨s, by rw [followLink, if_neg hstop], h.here (follows_of_not_stopsAt hstop)⟩

lemma followLink_ends (h : Ledger e.tree s₀ s (n :: held) steps)
    (hf : followed e r n = some (.ends o)) :
    ∃ s', followLink e recur s n = some (s', .cleanup o.out) ∧
      Ledger e.tree s₀ s' (o.refs e ++ n :: held) (steps ++ (asked e n).flatMap trail) ∧
      ∀ parent, o.result parent = ⟨o.out, none⟩ := by
  unfold followed at hf
  split_ifs at hf with hstop hfol hfind
  · obtain ⟨o', ho, hplace⟩ := Option.map_eq_some_iff.mp hf
    obtain ⟨s', hs', hl⟩ := recur_link ha hready h hfol ho
    refine ⟨s', ?_, ?_⟩
    · rw [followLink_follows hfol, hs']
      cases o' <;> cases hplace <;> rfl
    · cases o' <;> cases hplace <;> exact ⟨hl, fun _ => rfl⟩
  · cases hf
    exact ⟨s, by rw [followLink_stops hstop (by simpa using hfol), if_pos hfind]; rfl,
      h.here (by simpa using hfol), fun _ => rfl⟩
  · cases hf
    exact ⟨s, by rw [followLink_stops hstop (by simpa using hfol), if_neg hfind]; rfl,
      h.here (by simpa using hfol), fun _ => rfl⟩
  · cases hf

end

/-- The part of `lookupBody` behind the loop. -/
def finish (e : Env) (recur : Recur) (r : State × LoopEnd) : Option (State × Result) :=
  match r.2 with
  | .cleanup root result => some (cleanup e r.1 root result)
  | .done none => some (vfsNodeUnref e.tree r.1 e.base, ⟨.null, none⟩)
  | .done (some root) =>
    (followLink e recur r.1 root).map fun r =>
      match r.2 with
      | .cleanup out => cleanup e r.1 root ⟨out, none⟩
      | .root root => (vfsNodeUnref e.tree r.1 e.base, ⟨.node root, none⟩)

lemma lookupBody_eq (parent : Bool) : lookupBody e recur s root path parent =
    (loop e recur parent (startPath path).length
      (vfsNodeRef (vfsNodeRef s e.base) (e.start root path)) (e.start root path)
      (startPath path)).bind (finish e recur) := rfl

lemma cleanup_ledger {refs : List ℕ} (h : Ledger e.tree s₀ s (refs ++ [n, e.base]) steps)
    (res : Result) : ∃ s', cleanup e s n res = (s', res) ∧ Ledger e.tree s₀ s' refs steps := by
  have hp : (refs ++ [n, e.base]).Perm (e.base :: n :: refs) :=
    List.perm_append_comm.trans (List.Perm.swap _ _ _)
  exact ⟨_, rfl, (h.perm hp).unref.unref⟩

lemma finish_cleanup {o : Outcome} (recur : Recur) (parent : Bool)
    (h : Ledger e.tree s₀ s (o.refs e ++ [n, e.base]) steps) :
    ∃ s', finish e recur (s, .cleanup n (o.result parent)) = some (s', o.result parent) ∧
      Ledger e.tree s₀ s' (o.refs e) steps := by
  obtain ⟨s', hs', hl⟩ := cleanup_ledger h (o.result parent)
  exact ⟨s', by rw [← hs']; rfl, hl⟩

section

variable (ha : Answers e child r trail recur) (hready : Ready e child s₀ root) (parent : Bool)

include ha hready

lemma finish_done (h : Ledger e.tree s₀ s [n, e.base] steps) :
    ((followed e r n).map Place.outcome = none →
      finish e recur (s, .done (some n)) = none) ∧
    ∀ o, (followed e r n).map Place.outcome = some o →
      ∃ s', finish e recur (s, .done (some n)) = some (s', o.result parent) ∧
        Ledger e.tree s₀ s' (o.refs e) (steps ++ (asked e n).flatMap trail) := by
  cases hf : followed e r n with
  | none =>
    refine ⟨fun _ => ?_, by simp⟩
    simp only [finish, followLink_none ha hready h hf, Option.map_none]
  | some pl =>
    refine ⟨by simp, ?_⟩
    rintro o ho
    cases ho
    cases pl with
    | here m =>
      obtain ⟨s', hs', hl⟩ := followLink_here ha hready h hf
      refine ⟨_, ?_, (hl.perm (List.Perm.swap _ _ _)).unref⟩
      simp only [finish, hs', Option.map_some]
      rfl
    | ends o =>
      obtain ⟨s', hs', hl, hres⟩ := followLink_ends ha hready h hf
      obtain ⟨s'', hs'', hl'⟩ := cleanup_ledger hl ⟨o.out, none⟩
      refine ⟨s'', ?_, hl'⟩
      simp only [finish, hs', Option.map_some, Place.outcome, hres, hs'']

/-- **The loop follows the walk**, by induction on the tokens. -/
lemma loop_follows (f : ℕ) (h : Ledger e.tree s₀ s [n, e.base] steps) :
    (walk e child r f n path = none →
      (loop e recur parent f s n path).bind (finish e recur) = none) ∧
    ∀ o, walk e child r f n path = some o →
      ∃ s', (loop e recur parent f s n path).bind (finish e recur) = some (s', o.result parent) ∧
        Ledger e.tree s₀ s' (o.refs e) (steps ++ walkSteps e child r trail f n path) := by
  induction f generalizing s n path steps with
  | zero =>
    by_cases hp : path = []
    · subst hp
      rw [walk_nil, walkSteps_nil, loop, if_pos rfl, Option.bind_some]
      exact finish_done ha hready parent h
    · rw [walk, loop, if_neg hp, if_neg hp]
      simp
  | succ f ih =>
    by_cases hp : path = []
    · subst hp
      rw [walk_nil, walkSteps_nil, loop, if_pos rfl, Option.bind_some]
      exact finish_done ha hready parent h
    · rw [loop, if_neg hp]
      cases hf : followed e r n with
      | none =>
        rw [followLink_none ha hready h hf, walk, if_neg hp, hf]
        simp
      | some pl =>
        cases pl with
        | ends o =>
          obtain ⟨s', hs', hl, hres⟩ := followLink_ends ha hready h hf
          obtain ⟨s'', hs'', hl'⟩ := cleanup_ledger hl ⟨o.out, none⟩
          rw [walk_ends hp hf, walkSteps_stop (by simp [hf]), hs']
          refine ⟨by simp, ?_⟩
          rintro o' ho'
          cases ho'
          refine ⟨s'', ?_, hl'⟩
          simp only [Option.bind_some, finish]
          rw [hs'', hres]
        | here m =>
          obtain ⟨s', hs', hl⟩ := followLink_here ha hready h hf
          rw [walk_here hp hf, walkSteps_here hp hf, hs', Option.bind_some]
          unfold advance stepped
          rw [← List.append_assoc]
          cases htok : token path with
          | slash => exact ih hl
          | tooLong =>
            simp only [List.append_nil]
            refine ⟨by simp, ?_⟩
            rintro o ⟨⟩
            exact finish_cleanup (o := .notFound) recur parent hl
          | dot => exact ih hl
          | dotDot =>
            cases hpar : (e.tree.node m).parent with
            | none =>
              simp only [hpar]
              exact ih hl
            | some p =>
              by_cases hm : m = e.base
              · simp only [hm, ne_eq, not_true_eq_false, if_false]
                simp only [hm] at hl hpar
                simp only [hpar]
                exact ih hl
              · simp only [hpar, ne_eq, hm, not_false_eq_true, if_true]
                have hload := hl.sound.parent_loaded (hl.held_loaded m (by simp)) hpar
                exact ih ((hl.ref hload).perm (List.Perm.swap _ _ _)).unref
          | name name =>
            by_cases hperm : e.hasReadPermissions m = true
            · simp only [hperm, Bool.not_true, Bool.false_eq_true, if_false]
              cases hc : child m name with
              | none =>
                have hnone : vfsNodeLookup e.tree s' m name = (none, s') :=
                  hl.lookup_none (by rw [hready.same, hc])
                simp only [if_true, Option.toList_none, List.append_nil]
                refine ⟨by simp, ?_⟩
                rintro o ⟨⟩
                simp only [hnone]
                cases parent with
                | false =>
                  have hend := hl.unref.unref
                  simp only [Bool.false_eq_true, if_false]
                  refine ⟨vfsNodeUnref e.tree (vfsNodeUnref e.tree s' m) e.base, ?_, ?_⟩
                  · split_ifs <;> rfl
                  · split_ifs <;> exact hend
                | true =>
                  simp only [if_true]
                  split_ifs with hrest
                  · exact finish_cleanup (o := .missing m name) recur true hl
                  · exact finish_cleanup (o := .notFound) recur true hl
              | some c =>
                obtain ⟨s₂, hs₂, hl₂⟩ := hl.lookup (n := m) (by simp) (by rw [hready.same, hc])
                simp only [hs₂, if_true, Option.toList_some, ← List.append_assoc]
                by_cases hcb : c = e.base
                · simp only [hcb, if_true]
                  refine ⟨by simp, ?_⟩
                  rintro o ⟨⟩
                  rw [hcb] at hl₂
                  rw [List.append_nil]
                  exact finish_cleanup (o := .cycle) recur parent hl₂
                · simp only [hcb, if_false]
                  exact ih (hl₂.perm (List.Perm.swap _ _ _)).unref
            · simp only [hperm, Bool.not_false, Bool.false_eq_true, if_true, if_false,
                List.append_nil]
              refine ⟨by simp, ?_⟩
              rintro o ⟨⟩
              exact finish_cleanup (o := .notFound) recur parent hl

end

end

/-- **A lookup follows the resolution of its path**, by induction on the depth. -/
theorem vfsLookupForCreation_follows (e : Env) (child : ℕ → List Char → Option ℕ) (d : ℕ) :
    ∀ {s : State} {root : Option ℕ} (path : List Char) (parent : Bool), Ready e child s root →
      (eval (resolution e child) d (root, path) = none →
        vfsLookupForCreation e d s root path parent = none) ∧
      ∀ o, eval (resolution e child) d (root, path) = some o →
        ∃ s', vfsLookupForCreation e d s root path parent = some (s', o.result parent) ∧
          Ledger e.tree s s' (o.refs e) (lookupSteps e child d (root, path)) := by
  induction d with
  | zero =>
    intro s root path parent hready
    exact ⟨fun _ => rfl, by simp [eval]⟩
  | succ d ih =>
    intro s root path parent hready
    have ha : Answers e child (eval (resolution e child) d) (lookupSteps e child d)
        fun s root path =>
        (vfsLookupForCreation e d s root path false).map fun r => (r.1, r.2.out) :=
      { none := fun hready h => by rw [(ih _ false hready).1 h, Option.map_none]
        some := fun hready h => by
          obtain ⟨s', hs', hl⟩ := (ih _ false hready).2 _ h
          exact ⟨s', by rw [hs', Option.map_some]; rfl, hl⟩ }
    have hstart : s.loaded (e.start root path) = true := by
      have hroot : s.loaded (root.getD e.cwd) = true := by
        cases root with
        | none => exact hready.cwd
        | some m => exact hready.root m rfl
      unfold Env.start
      split
      · exact hready.base
      · split_ifs
        · exact hready.home
        · exact hroot
      · exact hroot
    have hl := ((Ledger.refl hready.sound).ref hready.base).ref hstart
    rw [eval_succ, vfsLookupForCreation, lookupBody_eq]
    exact loop_follows ha hready parent _ hl

end KernelModel.Vfs
