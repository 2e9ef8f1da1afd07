import KernelModel.Recursion
import KernelModel.Vfs

/-!
Path resolution without reference counts.

What a lookup finds depends only on which child has which name. It is given here as a recursion
by calls: the question is a path with the node that it starts at, and the questions it leads to
are the paths in the links on the way.
-/

namespace KernelModel.Vfs

open Recursion

/-- The node that a path is relative to, and the path. -/
abbrev Query := Option ℕ × List Char

inductive Outcome
  | found (n : ℕ)
  | notFound
  | linkFound
  /-- Only the last name of the path is missing, in the node `n`. -/
  | missing (n : ℕ) (name : List Char)
  /-- The root of the process turned up as a child. -/
  | cycle
  deriving DecidableEq, Repr

/-- Standing at a node, or having ended. -/
inductive Place
  | here (n : ℕ)
  | ends (o : Outcome)

variable (e : Env) (child : ℕ → List Char → Option ℕ)

/-- The question at a link. -/
def linkQuery (n : ℕ) : Query := ((e.tree.node n).parent, linkPath (e.tree.node n))

/-- The link is followed. -/
def follows (n : ℕ) : Bool :=
  e.stopsAt n && !e.flags.findLinks && e.hasReadPermissions n &&
    !(linkPath (e.tree.node n)).isEmpty

/-- Where it leads, or how the lookup ends there. -/
def Outcome.place : Outcome → Place
  | .found n => .here n
  | .cycle => .ends .cycle
  | _ => .ends .notFound

def followed (r : Query → Option Outcome) (n : ℕ) : Option Place :=
  if e.stopsAt n then
    if follows e n then (r (linkQuery e n)).map Outcome.place
    else some (.ends (if e.flags.findLinks then .linkFound else .notFound))
  else some (.here n)

/-- One token of the path, at a node that is not followed any more. -/
def advance (n : ℕ) (path : List Char) : Place :=
  match token path with
  | .slash => .here n
  | .tooLong => .ends .notFound
  | .dot => .here n
  | .dotDot =>
    match (e.tree.node n).parent with
    | some p => if n ≠ e.base then .here p else .here n
    | none => .here n
  | .name name =>
    if !e.hasReadPermissions n then .ends .notFound
    else
      match child n name with
      | none => .ends (if rest path = [] then .missing n name else .notFound)
      | some c => if c = e.base then .ends .cycle else .here c

def Place.outcome : Place → Outcome
  | .here n => .found n
  | .ends o => o

/-- The path from a node, with at most `f` tokens. -/
def walk (r : Query → Option Outcome) : ℕ → ℕ → List Char → Option Outcome
  | 0, n, path => if path = [] then (followed e r n).map Place.outcome else none
  | f + 1, n, path =>
    if path = [] then (followed e r n).map Place.outcome
    else
      (followed e r n).bind fun
        | .ends o => some o
        | .here n =>
          match advance e child n path with
          | .ends o => some o
          | .here n => walk r f n (rest path)

/-- The question asked at a node. -/
def asked (n : ℕ) : List Query := if follows e n then [linkQuery e n] else []

/-- The questions asked on the way. -/
def walkCalls (r : Query → Option Outcome) : ℕ → ℕ → List Char → List Query
  | 0, n, _ => asked e n
  | f + 1, n, path =>
    asked e n ++
      if path = [] then []
      else
        match followed e r n with
        | some (.here n) =>
          match advance e child n path with
          | .here n => walkCalls r f n (rest path)
          | .ends _ => []
        | _ => []

/-- The child that the first token of the path steps to. -/
def stepped (n : ℕ) (path : List Char) : List ℕ :=
  match token path with
  | .name name => if e.hasReadPermissions n then (child n name).toList else []
  | _ => []

/-- The children that the walk steps to, with those of the paths of links. -/
def walkSteps (r : Query → Option Outcome) (steps : Query → List ℕ) : ℕ → ℕ → List Char → List ℕ
  | 0, n, _ => (asked e n).flatMap steps
  | f + 1, n, path =>
    (asked e n).flatMap steps ++
      if path = [] then []
      else
        match followed e r n with
        | some (.here n) =>
          stepped e child n path ++
            match advance e child n path with
            | .here n => walkSteps r steps f n (rest path)
            | .ends _ => []
        | _ => []

variable {e child}

/-! ### It is a recursion by calls -/

lemma rest_length_lt {path : List Char} (h : path ≠ []) : (rest path).length < path.length := by
  cases path with
  | nil => exact absurd rfl h
  | cons a path =>
    rw [rest]
    split_ifs with ha
    · simp
    · have hne : a ≠ '/' := by simpa using ha
      have hdrop : (a :: path).dropWhile (· ≠ '/') = path.dropWhile (· ≠ '/') := by simp [hne]
      have hle := (List.dropWhile_suffix (l := path) (· ≠ '/')).length_le
      rw [hdrop, List.length_cons]
      omega

variable {r t : Query → Option Outcome} {f n : ℕ} {path : List Char} {o : Outcome} {p : Place}

lemma followed_none (h : followed e r n = none) :
    follows e n = true ∧ r (linkQuery e n) = none := by
  unfold followed at h
  split_ifs at h with hstop hfol
  · exact ⟨hfol, by simpa using h⟩

lemma followed_mono (hrt : Extends r t) (h : followed e r n = some p) :
    followed e t n = some p := by
  unfold followed at h ⊢
  split_ifs at h ⊢ with hstop hfol
  · obtain ⟨o, ho, rfl⟩ := Option.map_eq_some_iff.mp h
    rw [hrt _ _ ho, Option.map_some]
  all_goals exact h

lemma asked_served (h : followed e r n = some p) : ∀ q ∈ asked e n, ∃ o, r q = some o := by
  intro q hq
  unfold asked at hq
  split_ifs at hq with hfol
  · obtain rfl := List.mem_singleton.mp hq
    have hstop : e.stopsAt n = true := by
      rw [follows] at hfol
      simp only [Bool.and_eq_true] at hfol
      exact hfol.1.1.1
    rw [followed, if_pos hstop, if_pos hfol] at h
    obtain ⟨o, ho, -⟩ := Option.map_eq_some_iff.mp h
    exact ⟨o, ho⟩
  · cases hq

/-! What the walk does at a node, by where it stands then. -/

lemma walk_nil (f n : ℕ) : walk e child r f n [] = (followed e r n).map Place.outcome := by
  cases f <;> rw [walk, if_pos rfl]

lemma walkCalls_nil (f n : ℕ) : walkCalls e child r f n [] = asked e n := by
  cases f <;> simp [walkCalls]

lemma walk_ends (hp : path ≠ []) (h : followed e r n = some (.ends o)) :
    walk e child r (f + 1) n path = some o := by
  rw [walk, if_neg hp, h, Option.bind_some]

lemma walk_here {m : ℕ} (hp : path ≠ []) (h : followed e r n = some (.here m)) :
    walk e child r (f + 1) n path =
      match advance e child m path with
      | .ends o => some o
      | .here m => walk e child r f m (rest path) := by
  rw [walk, if_neg hp, h, Option.bind_some]

lemma walkCalls_here {m : ℕ} (hp : path ≠ []) (h : followed e r n = some (.here m)) :
    walkCalls e child r (f + 1) n path = asked e n ++
      match advance e child m path with
      | .here m => walkCalls e child r f m (rest path)
      | .ends _ => [] := by
  rw [walkCalls, if_neg hp, h]

lemma walkCalls_stop (hp : path ≠ []) (h : ∀ m, followed e r n ≠ some (.here m)) :
    walkCalls e child r (f + 1) n path = asked e n := by
  rw [walkCalls, if_neg hp]
  split
  · exact absurd ‹_› (h _)
  · rw [List.append_nil]

lemma walk_stuck (hf : path.length ≤ f) (h : walk e child r f n path = none) :
    ∃ q ∈ walkCalls e child r f n path, r q = none := by
  have hasked : ∀ n, followed e r n = none → ∃ q ∈ asked e n, r q = none := by
    intro n hnone
    obtain ⟨hfol, hq⟩ := followed_none hnone
    exact ⟨linkQuery e n, by simp [asked, hfol], hq⟩
  induction f generalizing n path with
  | zero =>
    obtain rfl : path = [] := List.length_eq_zero_iff.mp (by omega)
    rw [walk_nil, Option.map_eq_none_iff] at h
    rw [walkCalls_nil]
    exact hasked n h
  | succ f ih =>
    by_cases hp : path = []
    · subst hp
      rw [walk_nil, Option.map_eq_none_iff] at h
      rw [walkCalls_nil]
      exact hasked n h
    · have hlt := rest_length_lt hp
      cases hfol : followed e r n with
      | none =>
        rw [walkCalls_stop hp (by simp [hfol])]
        exact hasked n hfol
      | some pl =>
        cases pl with
        | ends o =>
          rw [walk_ends hp hfol] at h
          cases h
        | here m =>
          rw [walk_here hp hfol] at h
          rw [walkCalls_here hp hfol]
          cases hadv : advance e child m path with
          | ends o =>
            rw [hadv] at h
            cases h
          | here m' =>
            rw [hadv] at h
            obtain ⟨q, hq, hnone⟩ := ih (by omega) h
            exact ⟨q, List.mem_append_right _ hq, hnone⟩

lemma walk_served (h : walk e child r f n path = some o) :
    ∀ q ∈ walkCalls e child r f n path, ∃ o, r q = some o := by
  induction f generalizing n path with
  | zero =>
    rw [walk] at h
    split_ifs at h with hp
    obtain ⟨pl, hpl, -⟩ := Option.map_eq_some_iff.mp h
    exact asked_served hpl
  | succ f ih =>
    by_cases hp : path = []
    · subst hp
      rw [walk_nil] at h
      obtain ⟨pl, hpl, -⟩ := Option.map_eq_some_iff.mp h
      rw [walkCalls_nil]
      exact asked_served hpl
    · cases hfol : followed e r n with
      | none =>
        rw [walk, if_neg hp, hfol] at h
        cases h
      | some pl =>
        cases pl with
        | ends o' =>
          rw [walkCalls_stop hp (by simp [hfol])]
          exact asked_served hfol
        | here m =>
          rw [walk_here hp hfol] at h
          rw [walkCalls_here hp hfol]
          intro q hq
          rcases List.mem_append.mp hq with hq | hq
          · exact asked_served hfol q hq
          · cases hadv : advance e child m path with
            | ends o' =>
              rw [hadv] at hq
              cases hq
            | here m' =>
              rw [hadv] at h hq
              exact ih h q hq

lemma walk_mono (hrt : Extends r t) (h : walk e child r f n path = some o) :
    walk e child t f n path = some o ∧
      walkCalls e child t f n path = walkCalls e child r f n path := by
  induction f generalizing n path with
  | zero =>
    rw [walk] at h
    split_ifs at h with hp
    obtain ⟨pl, hpl, rfl⟩ := Option.map_eq_some_iff.mp h
    rw [walk, if_pos hp, followed_mono hrt hpl]
    exact ⟨rfl, rfl⟩
  | succ f ih =>
    by_cases hp : path = []
    · subst hp
      rw [walk_nil] at h
      obtain ⟨pl, hpl, rfl⟩ := Option.map_eq_some_iff.mp h
      rw [walk_nil, followed_mono hrt hpl, walkCalls_nil, walkCalls_nil]
      exact ⟨rfl, rfl⟩
    · cases hfol : followed e r n with
      | none =>
        rw [walk, if_neg hp, hfol] at h
        cases h
      | some pl =>
        have hfol' := followed_mono hrt hfol
        cases pl with
        | ends o' =>
          rw [walk_ends hp hfol] at h
          rw [walk_ends hp hfol', walkCalls_stop hp (by simp [hfol']),
            walkCalls_stop hp (by simp [hfol])]
          exact ⟨h, rfl⟩
        | here m =>
          rw [walk_here hp hfol] at h
          rw [walk_here hp hfol', walkCalls_here hp hfol, walkCalls_here hp hfol']
          cases hadv : advance e child m path with
          | ends o' =>
            rw [hadv] at h
            exact ⟨h, rfl⟩
          | here m' =>
            rw [hadv] at h
            obtain ⟨hwalk, hcalls⟩ := ih h
            exact ⟨hwalk, congrArg _ hcalls⟩

lemma walkCalls_mono (hrt : Extends r t) :
    walkCalls e child r f n path ⊆ walkCalls e child t f n path := by
  induction f generalizing n path with
  | zero => exact fun q hq => hq
  | succ f ih =>
    by_cases hp : path = []
    · subst hp
      rw [walkCalls_nil, walkCalls_nil]
      exact fun q hq => hq
    · by_cases hfol : ∃ m, followed e r n = some (.here m)
      · obtain ⟨m, hfol⟩ := hfol
        rw [walkCalls_here hp hfol, walkCalls_here hp (followed_mono hrt hfol)]
        cases advance e child m path with
        | ends o => exact fun q hq => hq
        | here m' =>
          exact List.append_subset.mpr ⟨List.subset_append_left _ _, fun q hq =>
            List.mem_append_right _ (ih hq)⟩
      · rw [walkCalls_stop hp (not_exists.mp hfol), walkCalls]
        exact List.subset_append_left _ _

variable (e child)

/-- **Path resolution.** -/
def resolution : Body Query Outcome where
  answer r q := walk e child r (startPath q.2).length (e.start q.1 q.2) (startPath q.2)
  calls r q := walkCalls e child r (startPath q.2).length (e.start q.1 q.2) (startPath q.2)
  stuck h := walk_stuck le_rfl h
  served h := walk_served h
  answer_mono hrt h := (walk_mono hrt h).1
  calls_mono hrt := walkCalls_mono hrt
  calls_eq hrt h := (walk_mono hrt h).2

/-- The children that a lookup with at most `d` calls steps to. -/
def lookupSteps : ℕ → Query → List ℕ
  | 0, _ => []
  | d + 1, q => walkSteps e child (eval (resolution e child) d) (lookupSteps d)
      (startPath q.2).length (e.start q.1 q.2) (startPath q.2)

variable {e child}

lemma walkSteps_nil (r : Query → Option Outcome) (steps : Query → List ℕ) (f n : ℕ) :
    walkSteps e child r steps f n [] = (asked e n).flatMap steps := by
  cases f <;> simp [walkSteps]

lemma walkSteps_stop {steps : Query → List ℕ} (h : ∀ m, followed e r n ≠ some (.here m)) :
    walkSteps e child r steps (f + 1) n path = (asked e n).flatMap steps := by
  rw [walkSteps]
  split_ifs
  · exact List.append_nil _
  · split
    · exact absurd ‹_› (h _)
    · exact List.append_nil _

lemma walkSteps_here {steps : Query → List ℕ} {m : ℕ} (hp : path ≠ [])
    (h : followed e r n = some (.here m)) :
    walkSteps e child r steps (f + 1) n path =
      (asked e n).flatMap steps ++ (stepped e child m path ++
        match advance e child m path with
        | .here m => walkSteps e child r steps f m (rest path)
        | .ends _ => []) := by
  rw [walkSteps, if_neg hp, h]

lemma type_of_stopsAt (h : e.stopsAt n = true) : (e.tree.node n).type = .link := by
  rw [Env.stopsAt, Bool.and_eq_true] at h
  simpa using h.2

/-! ### The questions are those at links -/

lemma mem_asked {q : Query} (h : q ∈ asked e n) :
    (e.tree.node n).type = .link ∧ q = linkQuery e n := by
  unfold asked at h
  split_ifs at h with hfol
  · refine ⟨type_of_stopsAt ?_, List.mem_singleton.mp h⟩
    rw [follows] at hfol
    simp only [Bool.and_eq_true] at hfol
    exact hfol.1.1.1
  · cases h

lemma mem_walkCalls {q : Query} (h : q ∈ walkCalls e child r f n path) :
    ∃ n, (e.tree.node n).type = .link ∧ q = linkQuery e n := by
  induction f generalizing n path with
  | zero => exact ⟨n, mem_asked h⟩
  | succ f ih =>
    rw [walkCalls] at h
    rcases List.mem_append.mp h with h | h
    · exact ⟨n, mem_asked h⟩
    · split_ifs at h
      · cases h
      · split at h
        · split at h
          · exact ih h
          · cases h
        · cases h

/-- The links of a finite tree. -/
def HasLinks (e : Env) (links : Finset ℕ) : Prop :=
  ∀ n, (e.tree.node n).type = .link → n ∈ links

/-- **Termination**: the resolution ends exactly if no path of a link is resolved again while it
is being resolved, and it is then not deeper than there are links. -/
theorem resolution_ends_iff {links : Finset ℕ} (hlinks : HasLinks e links) (q : Query) :
    (∃ d ≤ links.card + 1, ∃ o, eval (resolution e child) d q = some o) ↔
      Straight (resolution e child) q := by
  classical
  constructor
  · rintro ⟨d, -, o, ho⟩
    exact straight_of_ends ⟨d, o, ho⟩
  · intro h
    have hS : ∀ k c, Asks (resolution e child) k c → c ∈ links.image (linkQuery e) := by
      intro k c hc
      obtain ⟨n, hn, rfl⟩ := mem_walkCalls hc
      exact Finset.mem_image_of_mem _ (hlinks n hn)
    obtain ⟨o, ho⟩ := eval_of_straight hS h
    exact ⟨_, Nat.succ_le_succ Finset.card_image_le, o, ho⟩

/-! ### Confinement -/

/-- The node is the root of the process or below it. -/
def Inside (e : Env) (n : ℕ) : Prop :=
  Relation.ReflTransGen (fun a b => (e.tree.node a).parent = some b) n e.base

lemma Inside.parent {p : ℕ} (h : Inside e n) (hn : n ≠ e.base)
    (hp : (e.tree.node n).parent = some p) : Inside e p := by
  rcases Relation.ReflTransGen.cases_head h with hbase | ⟨b, hb, hrest⟩
  · exact absurd hbase hn
  · rw [hp] at hb
    obtain rfl := Option.some.inj hb
    exact hrest

/-- The node that the outcome names is inside. -/
def Outcome.Inside (e : Env) : Outcome → Prop
  | .found n => Vfs.Inside e n
  | .missing n _ => Vfs.Inside e n
  | _ => True

def Place.Inside (e : Env) : Place → Prop
  | .here n => Vfs.Inside e n
  | .ends o => o.Inside e

section

variable (hbase : (e.tree.node e.base).type ≠ .link)
  (hchild : ∀ n name c, child n name = some c → (e.tree.node c).parent = some n)

include hbase in
lemma followed_inside (hr : ∀ q o, (∀ m ∈ q.1, Inside e m) → r q = some o → o.Inside e)
    (hn : Inside e n) (h : followed e r n = some p) : p.Inside e := by
  unfold followed at h
  split_ifs at h with hstop hfol hfind
  · obtain ⟨o, ho, rfl⟩ := Option.map_eq_some_iff.mp h
    have hne : n ≠ e.base := by
      rintro rfl
      exact hbase (type_of_stopsAt hstop)
    have hin := hr _ _ (fun m hm => hn.parent hne hm) ho
    cases o with
    | found m => exact hin
    | notFound => trivial
    | linkFound => trivial
    | missing m name => trivial
    | cycle => trivial
  · cases h
    trivial
  · cases h
    trivial
  · cases h
    exact hn

include hchild in
lemma advance_inside (path : List Char) (hn : Inside e n) : (advance e child n path).Inside e := by
  unfold advance
  split
  · exact hn
  · trivial
  · exact hn
  · split
    · rename_i p hp
      split_ifs with hne
      · exact hn.parent hne hp
      · exact hn
    · exact hn
  · rename_i name _
    cases hc : child n name with
    | none =>
      split_ifs
      · trivial
      · exact hn
      · trivial
    | some c =>
      have hin : Inside e c := Relation.ReflTransGen.head (hchild n name c hc) hn
      simp only
      split_ifs
      · trivial
      · trivial
      · exact hin

include hbase hchild in
lemma walk_inside (hr : ∀ q o, (∀ m ∈ q.1, Inside e m) → r q = some o → o.Inside e)
    (hn : Inside e n) (h : walk e child r f n path = some o) : o.Inside e := by
  have hend : ∀ {n}, Inside e n → (followed e r n).map Place.outcome = some o → o.Inside e := by
    intro n hn h
    obtain ⟨pl, hpl, rfl⟩ := Option.map_eq_some_iff.mp h
    have hin := followed_inside hbase hr hn hpl
    cases pl with
    | here m => exact hin
    | ends o => exact hin
  induction f generalizing n path with
  | zero =>
    rw [walk] at h
    split_ifs at h
    exact hend hn h
  | succ f ih =>
    by_cases hp : path = []
    · subst hp
      rw [walk_nil] at h
      exact hend hn h
    · cases hfol : followed e r n with
      | none =>
        rw [walk, if_neg hp, hfol] at h
        cases h
      | some pl =>
        have hin := followed_inside hbase hr hn hfol
        cases pl with
        | ends o' =>
          rw [walk_ends hp hfol] at h
          cases h
          exact hin
        | here m =>
          rw [walk_here hp hfol] at h
          have hadv := advance_inside hchild path hin
          cases hm : advance e child m path with
          | ends o' =>
            rw [hm] at h hadv
            cases h
            exact hadv
          | here m' =>
            rw [hm] at h hadv
            exact ih hadv h

include hbase hchild in
/-- **Confinement**, by induction on the depth. -/
theorem resolution_inside (hhome : Inside e e.home) (hcwd : Inside e e.cwd) (d : ℕ) {q : Query}
    (hq : ∀ m ∈ q.1, Inside e m) (h : eval (resolution e child) d q = some o) : o.Inside e := by
  induction d generalizing q o with
  | zero => cases h
  | succ d ih =>
    refine walk_inside hbase hchild (fun q o hq ho => ih hq ho) ?_ h
    have hroot : Inside e (q.1.getD e.cwd) := by
      cases hq1 : q.1 with
      | none => exact hcwd
      | some m => exact hq m (by rw [hq1]; rfl)
    unfold Env.start
    split
    · exact Relation.ReflTransGen.refl
    · split_ifs
      · exact hhome
      · exact hroot
    · exact hroot

end

end KernelModel.Vfs
