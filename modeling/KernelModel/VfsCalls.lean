import KernelModel.VfsLookup

/-!
What a lookup promises: it ends, it stays inside of the root of the process, and it leaves the
reference counts as they were, but for the node that it hands out, if no driver loads a node for it.
-/

namespace KernelModel.Vfs

open Recursion

variable {e : Env} {s s' : State} {root : Option ℕ} {path : List Char} {parent : Bool} {d : ℕ}
  {res : Result}

/-- The children as they are when the lookup is called. -/
abbrev Callable (e : Env) (s : State) (root : Option ℕ) : Prop :=
  Ready e (childOf e.tree s) s root

lemma outcome_of_lookup (h : Callable e s root)
    (hrun : vfsLookupForCreation e d s root path parent = some (s', res)) :
    ∃ o, eval (resolution e (childOf e.tree s)) d (root, path) = some o ∧ res = o.result parent ∧
      Ledger e.tree s s' (o.refs e) (lookupSteps e (childOf e.tree s) d (root, path)) := by
  obtain ⟨hnone, hsome⟩ := vfsLookupForCreation_follows e _ d path parent h
  cases ho : eval (resolution e (childOf e.tree s)) d (root, path) with
  | none =>
    rw [hnone ho] at hrun
    cases hrun
  | some o =>
    obtain ⟨s₁, hs₁, hl⟩ := hsome o ho
    rw [hs₁] at hrun
    cases hrun
    exact ⟨o, rfl, rfl, hl⟩

/-! ### A directory with a link

The directory 0 has the link `a` with a given path and the empty directory `b`. -/

def sampleNode (target : List Char) : ℕ → Node
  | 1 => ⟨['a'], some 0, .link, false, false, 0o777, 0, 0, true, target⟩
  | 2 => ⟨['b'], some 0, .directory, false, false, 0o777, 0, 0, true, []⟩
  | _ => ⟨[], none, .directory, true, false, 0o777, 0, 0, true, []⟩

def sampleEnv (target : List Char) (flags : Flags) : Env where
  tree := ⟨sampleNode target, fun _ _ => none⟩
  process := some ⟨0, 0, 0⟩
  vfsRootNode := 0
  ids := Ids.init
  flags := flags
  uid := 0
  gid := 0

def sampleState : State where
  loaded n := n < 3
  children n := if n = 0 then [2, 1] else []
  rc n := if n = 0 then 5 else 0
  deleted := []

lemma sample_sound (target : List Char) (flags : Flags) :
    Sound (sampleEnv target flags).tree sampleState := by
  have hmem : ∀ {n c}, c ∈ sampleState.children n → n = 0 ∧ (c = 2 ∨ c = 1) := by
    intro n c hc
    unfold sampleState at hc
    by_cases hn : n = 0
    · subst hn
      exact ⟨rfl, by simpa using hc⟩
    · simp [hn] at hc
  have hpar : ∀ {n p}, (sampleNode target n).parent = some p → p = 0 ∧ (n = 2 ∨ n = 1) := by
    intro n p hp
    unfold sampleNode at hp
    split at hp
    · exact ⟨(Option.some.inj hp).symm, .inr rfl⟩
    · exact ⟨(Option.some.inj hp).symm, .inl rfl⟩
    · cases hp
  exact
    { child_loaded := fun hc => by
        obtain ⟨-, rfl | rfl⟩ := hmem hc <;> rfl
      child_parent := fun hc => by
        obtain ⟨rfl, rfl | rfl⟩ := hmem hc <;> rfl
      parent_child := fun _ hp => by
        obtain ⟨rfl, rfl | rfl⟩ := hpar hp <;> simp [sampleState]
      parent_loaded := fun _ hp => by
        obtain ⟨rfl, -⟩ := hpar hp
        rfl
      disk_name := fun h => by cases h
      disk_parent := fun h => by cases h
      disk_kept := fun h => by cases h
      unloaded := fun {n} hn => by
        have hn0 : n ≠ 0 := by
          rintro rfl
          cases hn
        simp [sampleState, hn0]
      kept := fun {n} hn hrc => by
        have hn3 : n < 3 := by simpa [sampleState] using hn
        interval_cases n
        · cases hrc
        · exact ⟨.inl (by simp [sampleEnv, sampleNode]), rfl⟩
        · exact ⟨.inl (by simp [sampleEnv, sampleNode]), rfl⟩ }

lemma sample_callable (target : List Char) (flags : Flags) :
    Callable (sampleEnv target flags) sampleState none where
  sound := sample_sound target flags
  same _ _ := rfl
  base := rfl
  home := rfl
  cwd := rfl
  root := by simp

lemma sample_links (target : List Char) (flags : Flags) :
    HasLinks (sampleEnv target flags) {1} := by
  intro n hn
  rw [Finset.mem_singleton]
  have hn : (sampleNode target n).type = .link := hn
  unfold sampleNode at hn
  split at hn
  · rfl
  · cases hn
  · cases hn

/-! ### Termination -/

/-- A lookup **ends**, not deeper than there are links, exactly if the path of no link comes up
again while it is being resolved. -/
theorem lookup_ends_iff {links : Finset ℕ} (hlinks : HasLinks e links) (h : Callable e s root)
    (path : List Char) (parent : Bool) :
    (∃ d ≤ links.card + 1, (vfsLookupForCreation e d s root path parent).isSome) ↔
      Straight (resolution e (childOf e.tree s)) (root, path) := by
  rw [← resolution_ends_iff hlinks]
  refine exists_congr fun d => and_congr_right fun _ => ?_
  obtain ⟨hnone, hsome⟩ := vfsLookupForCreation_follows e _ d path parent h
  cases ho : eval (resolution e (childOf e.tree s)) d (root, path) with
  | none => simp [hnone ho]
  | some o =>
    obtain ⟨s₁, hs₁, -⟩ := hsome o ho
    simp [hs₁]

/-- A link to a directory. -/
theorem straight_at_directory :
    Straight (resolution (sampleEnv ['b'] ⟨true, false, false⟩)
      (childOf (sampleEnv ['b'] ⟨true, false, false⟩).tree sampleState)) (none, ['a']) :=
  (lookup_ends_iff (sample_links _ _) (sample_callable _ _) ['a'] false).mp
    ⟨2, by simp, by decide +kernel⟩

/-- A link to itself: at no depth does the lookup end. -/
theorem self_link_never_ends : ¬ ∃ d,
    (vfsLookupForCreation (sampleEnv ['a'] ⟨true, false, false⟩) d sampleState none ['a']
      false).isSome := by
  -- the path leads to the link, whose path is the same again
  have hwalk : ∀ r : Query → Option Outcome, walk (sampleEnv ['a'] ⟨true, false, false⟩)
      (childOf (sampleEnv ['a'] ⟨true, false, false⟩).tree sampleState) r 1 0 ['a']
        = ((r (some 0, ['a'])).map Outcome.place).map Place.outcome := fun r => rfl
  have hlink : ∀ d, eval (resolution (sampleEnv ['a'] ⟨true, false, false⟩)
      (childOf (sampleEnv ['a'] ⟨true, false, false⟩).tree sampleState)) d (some 0, ['a'])
        = none := by
    intro d
    induction d with
    | zero => rfl
    | succ d ih =>
      refine (hwalk _).trans ?_
      rw [ih]
      rfl
  rintro ⟨d, hd⟩
  have hnone : eval (resolution (sampleEnv ['a'] ⟨true, false, false⟩)
      (childOf (sampleEnv ['a'] ⟨true, false, false⟩).tree sampleState)) d (none, ['a'])
        = none := by
    cases d with
    | zero => rfl
    | succ d =>
      refine (hwalk _).trans ?_
      rw [hlink]
      rfl
  rw [(vfsLookupForCreation_follows _ _ d _ false (sample_callable _ _)).1 hnone] at hd
  cases hd

/-- Without the flag to follow links, or with the one to find them, nothing is asked. -/
lemma calls_of_flags {child : ℕ → List Char → Option ℕ}
    (hflags : e.flags.followLinks = false ∨ e.flags.findLinks = true) (r : Query → Option Outcome)
    (q : Query) : (resolution e child).calls r q = [] := by
  have hfol : ∀ n, follows e n = false := by
    intro n
    rcases hflags with hf | hf
    · cases hfind : e.flags.findLinks <;> simp [follows, Env.stopsAt, hf, hfind]
    · simp [follows, hf]
  have hcalls : ∀ f n path, walkCalls e child r f n path = [] := by
    intro f
    induction f with
    | zero => exact fun n path => by simp [walkCalls, asked, hfol]
    | succ f ih =>
      intro n path
      have hasked : asked e n = [] := by simp [asked, hfol]
      rw [walkCalls, hasked, List.nil_append]
      split_ifs
      · rfl
      · split
        · split
          · exact ih _ _
          · rfl
        · rfl
  exact hcalls _ _ _

/-- Then nothing recurs. -/
theorem straight_of_flags {child : ℕ → List Char → Option ℕ}
    (hflags : e.flags.followLinks = false ∨ e.flags.findLinks = true) (q : Query) :
    Straight (resolution e child) q := by
  have hasks : ∀ k c, ¬ Asks (resolution e child) k c := by
    intro k c hc
    rw [Asks, calls_of_flags hflags] at hc
    cases hc
  intro k _ hloop
  obtain ⟨c, hc, -⟩ := Relation.TransGen.head'_iff.mp hloop
  exact hasks k c hc

lemma eval_of_flags {child : ℕ → List Char → Option ℕ}
    (hflags : e.flags.followLinks = false ∨ e.flags.findLinks = true) (q : Query) :
    ∃ o, ∀ d, eval (resolution e child) (d + 1) q = some o := by
  cases ho : eval (resolution e child) 1 q with
  | none =>
    obtain ⟨c, hc, -⟩ := (resolution e child).stuck ho
    rw [calls_of_flags hflags] at hc
    cases hc
  | some o => exact ⟨o, fun d => eval_extends _ (Nat.le_add_left 1 d) q o ho⟩

/-! ### Confinement -/

lemma parent_of_childOf {t : Tree} (h : Sound t s) {n c : ℕ} {name : List Char}
    (hc : childOf t s n name = some c) : (t.node c).parent = some n := by
  unfold childOf at hc
  cases hfind : (s.children n).find? (fun c => (t.node c).name = name) with
  | some c' =>
    rw [hfind, Option.some_or] at hc
    cases hc
    exact h.child_parent (List.mem_of_find?_eq_some hfind)
  | none =>
    rw [hfind, Option.none_or] at hc
    exact h.disk_parent hc

/-- A lookup **stays inside** of the root of the process. -/
theorem lookup_inside (h : Callable e s root) (hbase : (e.tree.node e.base).type = .directory)
    (hcwd : Inside e e.cwd) (hhome : Inside e e.home) (hroot : ∀ m ∈ root, Inside e m)
    (hrun : vfsLookupForCreation e d s root path parent = some (s', res)) :
    (∀ n, res.out = .node n → Inside e n) ∧ ∀ n name, res.parent = some (n, name) → Inside e n := by
  obtain ⟨o, ho, rfl, -⟩ := outcome_of_lookup h hrun
  have hin := resolution_inside (by rw [hbase]; simp) (fun n name c => parent_of_childOf h.sound)
    hhome hcwd d hroot ho
  constructor
  · intro n hn
    cases o with
    | found m =>
      cases hn
      exact hin
    | notFound => cases hn
    | linkFound => cases hn
    | missing m name => cases hn
    | cycle => cases hn
  · intro n name hn
    cases o with
    | missing m name' =>
      cases parent with
      | false => cases hn
      | true =>
        cases hn
        exact hin
    | found m => cases hn
    | notFound => cases hn
    | linkFound => cases hn
    | cycle => cases hn

/-- Through the link and up again, more often than there are directories. -/
theorem lookup_inside_up : ∃ s' n,
    vfsLookupForCreation (sampleEnv ['b'] ⟨true, false, false⟩) 2 sampleState none
      ['a', '/', '.', '.', '/', '.', '.', '/', 'b'] false = some (s', ⟨.node n, none⟩) ∧
    Inside (sampleEnv ['b'] ⟨true, false, false⟩) n := by
  have hrun : (vfsLookupForCreation (sampleEnv ['b'] ⟨true, false, false⟩) 2 sampleState none
      ['a', '/', '.', '.', '/', '.', '.', '/', 'b'] false).map Prod.snd
        = some ⟨.node 2, none⟩ := by decide +kernel
  obtain ⟨⟨s', res⟩, hrun, hres⟩ := Option.map_eq_some_iff.mp hrun
  obtain rfl : res = ⟨.node 2, none⟩ := hres
  exact ⟨s', 2, hrun, (lookup_inside (sample_callable _ _) rfl Relation.ReflTransGen.refl
    Relation.ReflTransGen.refl (by simp) hrun).1 2 rfl⟩

/-! ### Reference counts -/

/-- The counts change by the node that is returned, and by the node that is stored as the
parent. -/
def Balanced (s s' : State) (res : Result) : Prop :=
  ∀ n, s'.rc n = s.rc n + (if res.out = .node n then 1 else 0)
    + (if res.parent.map Prod.fst = some n then 1 else 0)

/-- The resolution ends with a parent for a new node, or at the root of the process. -/
def EndsAtParentOrCycle (e : Env) (s : State) (parent : Bool) (q : Query) : Prop :=
  (parent = true ∧ ∃ n name, limit (resolution e (childOf e.tree s)) q = some (.missing n name)) ∨
    limit (resolution e (childOf e.tree s)) q = some .cycle

/-- The path, or that of a link on the way, has a child that is not in memory yet. -/
def Loads (e : Env) (s : State) (d : ℕ) (q : Query) (c : ℕ) : Prop :=
  c ∈ lookupSteps e (childOf e.tree s) d q ∧ s.loaded c = false

/-- The resolution ends with a parent for a new node, and loads one node, a child of that parent:
the reference of the child stands in for the missing one. -/
def LoadsForParent (e : Env) (s : State) (d : ℕ) (parent : Bool) (q : Query) : Prop :=
  parent = true ∧ ∃ n name,
    limit (resolution e (childOf e.tree s)) q = some (.missing n name) ∧
      ∃ c, (e.tree.node c).parent = some n ∧ ∀ c', Loads e s d q c' ↔ c' = c

section

variable {q : Query} {held : List ℕ} (new : ℕ → List ℕ)

lemma length_new_iff (hl : Ledger e.tree s s' held (lookupSteps e (childOf e.tree s) d q))
    (hnew : ∀ n c, c ∈ new n ↔ Loads e s d q c ∧ (e.tree.node c).parent = some n) :
    (∀ n, (new n).length = 0) ↔ ∀ c, ¬Loads e s d q c := by
  constructor
  · intro hzero c hc
    obtain ⟨n, hn⟩ := hl.parent_of_step hc.1 hc.2
    have hmem := (hnew n c).mpr ⟨hc, hn⟩
    rw [List.length_eq_zero_iff.mp (hzero n)] at hmem
    cases hmem
  · intro hno n
    refine List.length_eq_zero_iff.mpr (List.eq_nil_iff_forall_not_mem.mpr fun c hc => ?_)
    exact hno c ((hnew n c).mp hc).1

lemma length_new_one_iff (hl : Ledger e.tree s s' held (lookupSteps e (childOf e.tree s) d q))
    (hnodup : ∀ n, (new n).Nodup)
    (hnew : ∀ n c, c ∈ new n ↔ Loads e s d q c ∧ (e.tree.node c).parent = some n) (m : ℕ) :
    (∀ n, (new n).length = if n = m then 1 else 0) ↔
      ∃ c, (e.tree.node c).parent = some m ∧ ∀ c', Loads e s d q c' ↔ c' = c := by
  constructor
  · intro hlength
    have hone := hlength m
    rw [if_pos rfl] at hone
    obtain ⟨c, hc⟩ := List.length_eq_one_iff.mp hone
    have hmem := (hnew m c).mp (by rw [hc]; exact List.mem_singleton_self c)
    refine ⟨c, hmem.2, fun c' => ⟨fun hc' => ?_, fun h => h ▸ hmem.1⟩⟩
    obtain ⟨n, hn⟩ := hl.parent_of_step hc'.1 hc'.2
    have hmem' := (hnew n c').mpr ⟨hc', hn⟩
    by_cases hnm : n = m
    · rw [hnm, hc] at hmem'
      exact List.mem_singleton.mp hmem'
    · have hzero := hlength n
      rw [if_neg hnm] at hzero
      rw [List.length_eq_zero_iff.mp hzero] at hmem'
      cases hmem'
  · rintro ⟨c, hparent, honly⟩ n
    by_cases hnm : n = m
    · subst hnm
      have hperm : (new n).Perm [c] := by
        refine (List.perm_ext_iff_of_nodup (hnodup n) (List.nodup_singleton c)).mpr fun c' => ?_
        rw [hnew, honly, List.mem_singleton]
        exact ⟨And.left, fun h => ⟨h, h ▸ hparent⟩⟩
      rw [if_pos rfl, hperm.length_eq, List.length_singleton]
    · rw [if_neg hnm]
      refine List.length_eq_zero_iff.mpr (List.eq_nil_iff_forall_not_mem.mpr fun c' hc' => ?_)
      obtain ⟨hloads, hparent'⟩ := (hnew n c').mp hc'
      rw [(honly c').mp hloads, hparent] at hparent'
      exact hnm (Option.some.inj hparent').symm

end

/-- A lookup **balances the counts** exactly if it loads no node and does not end so, or loads the
one node that makes up for its end. -/
theorem lookup_balanced_iff (h : Callable e s root)
    (hrun : vfsLookupForCreation e d s root path parent = some (s', res)) :
    Balanced s s' res ↔
      ((∀ c, ¬Loads e s d (root, path) c) ∧ ¬EndsAtParentOrCycle e s parent (root, path)) ∨
        LoadsForParent e s d parent (root, path) := by
  obtain ⟨o, ho, rfl, hl⟩ := outcome_of_lookup h hrun
  have hlimit := eval_extends_limit _ d _ _ ho
  obtain ⟨new, hcounts, hnodup, hnew⟩ := hl.counts_new h.sound
  have hnone := length_new_iff new hl hnew
  simp only [EndsAtParentOrCycle, LoadsForParent, hlimit, Option.some.injEq, Balanced, hcounts,
    ← hnone]
  -- without a parent and without a cycle, nothing else than the loaded nodes is counted
  have hplain (hrefs : ∀ n, (o.refs e).count n = if (o.result parent).out = .node n then 1 else 0)
      (hparent : (o.result parent).parent = none) :
      (∀ n, s.rc n + (new n).length + (o.refs e).count n =
        s.rc n + (if (o.result parent).out = .node n then 1 else 0) +
          (if (o.result parent).parent.map Prod.fst = some n then 1 else 0)) ↔
        ∀ n, (new n).length = 0 := by
    refine forall_congr' fun n => ?_
    rw [hrefs, hparent]
    simp only [Option.map_none, reduceCtorEq, if_false]
    omega
  cases o with
  | found m =>
    rw [hplain (fun n => by simp [Outcome.refs, Outcome.result, Outcome.out, List.count_singleton])
      rfl]
    simp
  | notFound =>
    rw [hplain (fun n => by simp [Outcome.refs, Outcome.result, Outcome.out]) rfl]
    simp
  | linkFound =>
    rw [hplain (fun n => by simp [Outcome.refs, Outcome.result, Outcome.out]) rfl]
    simp
  | missing m name =>
    cases parent with
    | false =>
      rw [hplain (fun n => by simp [Outcome.refs, Outcome.result, Outcome.out]) rfl]
      simp
    | true =>
      have hone := length_new_one_iff new hl hnodup hnew m
      have hmissing : (∀ n, s.rc n + (new n).length + ((Outcome.missing m name).refs e).count n =
          s.rc n + (if ((Outcome.missing m name).result true).out = .node n then 1 else 0) +
            (if ((Outcome.missing m name).result true).parent.map Prod.fst = some n then 1
              else 0)) ↔ ∀ n, (new n).length = if n = m then 1 else 0 := by
        refine forall_congr' fun n => ?_
        simp only [Outcome.refs, Outcome.result, Outcome.out, List.count_nil, reduceCtorEq,
          if_false, if_true, Option.map_some, Option.some.injEq, eq_comm (a := m)]
        omega
      rw [hmissing, hone]
      simp
  | cycle =>
    refine iff_of_false (fun hbal => ?_) (by simp)
    have hbase := hbal e.base
    simp only [Outcome.refs, Outcome.result, Outcome.out, List.count_singleton_self, reduceCtorEq,
      if_false, Option.map_none] at hbase
    omega

/-- The directory `b`, through the link. -/
theorem lookup_balanced_link : ∃ s',
    vfsLookupForCreation (sampleEnv ['b'] ⟨true, false, false⟩) 2 sampleState none ['a'] true
      = some (s', ⟨.node 2, none⟩) ∧ Balanced sampleState s' ⟨.node 2, none⟩ := by
  have hrun : (vfsLookupForCreation (sampleEnv ['b'] ⟨true, false, false⟩) 2 sampleState none
      ['a'] true).map Prod.snd = some ⟨.node 2, none⟩ := by decide +kernel
  obtain ⟨⟨s', res⟩, hrun, hres⟩ := Option.map_eq_some_iff.mp hrun
  obtain rfl : res = ⟨.node 2, none⟩ := hres
  have hlimit : limit (resolution (sampleEnv ['b'] ⟨true, false, false⟩)
      (childOf (sampleEnv ['b'] ⟨true, false, false⟩).tree sampleState)) (none, ['a'])
        = some (.found 2) := eval_extends_limit _ 2 _ _ (by decide +kernel)
  have hsteps : ∀ c ∈ lookupSteps (sampleEnv ['b'] ⟨true, false, false⟩)
      (childOf (sampleEnv ['b'] ⟨true, false, false⟩).tree sampleState) 2 (none, ['a']),
      sampleState.loaded c = true := by decide +kernel
  refine ⟨s', hrun, (lookup_balanced_iff (sample_callable _ _) hrun).mpr (.inl ⟨?_, ?_⟩)⟩
  · rintro c ⟨hstep, hload⟩
    rw [hsteps c hstep] at hload
    cases hload
  · simp [EndsAtParentOrCycle, hlimit]

/-- The name `x` is missing: the directory is stored as its parent, but without a reference. -/
theorem lookup_parent_not_balanced : ∃ s',
    vfsLookupForCreation (sampleEnv ['b'] ⟨true, false, false⟩) 1 sampleState none ['x'] true
      = some (s', ⟨.null, some (0, ['x'])⟩) ∧
    ¬ Balanced sampleState s' ⟨.null, some (0, ['x'])⟩ := by
  have hrun : (vfsLookupForCreation (sampleEnv ['b'] ⟨true, false, false⟩) 1 sampleState none
      ['x'] true).map (fun r => (r.2, r.1.rc 0)) = some (⟨.null, some (0, ['x'])⟩, 5) := by
    decide +kernel
  obtain ⟨⟨s', res⟩, hrun, hres⟩ := Option.map_eq_some_iff.mp hrun
  simp only [Prod.mk.injEq] at hres
  obtain ⟨rfl, hrc⟩ := hres
  refine ⟨s', hrun, fun hbal => ?_⟩
  have h0 := hbal 0
  rw [hrc] at h0
  simp [sampleState] at h0

end KernelModel.Vfs
