import KernelModel.DoublyLinked

/-!
The children of a directory, as a doubly linked list.

Children are put at the front. A node that is taken out keeps its own links to its former
siblings; the link forward is set again when the node is attached, the link back is not.
-/

namespace KernelModel.ChildLists

open DoublyLinked

/-- `relatives` of `vfs_node_t` -/
structure Relatives where
  parent : Option ℕ
  prevSibling : Option ℕ
  nextSibling : Option ℕ
  child : Option ℕ

structure State where
  relatives : ℕ → Relatives
  rc : ℕ → ℕ

def State.modify (s : State) (n : ℕ) (f : Relatives → Relatives) : State :=
  { s with relatives := Function.update s.relatives n (f (s.relatives n)) }

def vfsNodeRef (s : State) (n : ℕ) : State :=
  { s with rc := Function.update s.rc n (s.rc n + 1) }

/-- `vfs_node_unref`; where it takes a node out of its list in turn, that is a call of its own. -/
def vfsNodeUnref (s : State) (n : ℕ) : State :=
  { s with rc := Function.update s.rc n (s.rc n - 1) }

/-- The child is linked before the first child of the node. -/
def linkFirst (s : State) (node child : ℕ) : State :=
  let s := s.modify child fun r => { r with nextSibling := (s.relatives node).child }
  let s :=
    match (s.relatives node).child with
    | some first => s.modify first fun r => { r with prevSibling := some child }
    | none => s
  s.modify node fun r => { r with child := some child }

/-- The end of `vfs_node_lookup`, for a node `out` that `functions->lookup` has made. -/
def vfsNodeLookupMiss (s : State) (node out : ℕ) : State :=
  let s := vfsNodeRef s node
  let s := s.modify out fun r => { r with parent := some node }
  linkFirst s node out

def vfsNodeAttachChild (s : State) (node child : ℕ) : State :=
  let s :=
    if (s.relatives child).parent.isSome then s
    else (vfsNodeRef s node).modify child fun r => { r with parent := some node }
  linkFirst s node child

def vfsNodeDettachChild (s : State) (node : ℕ) : State :=
  match (s.relatives node).parent with
  | none => s
  | some parent =>
    let s :=
      match (s.relatives node).prevSibling with
      | some prev =>
        s.modify prev fun r => { r with nextSibling := (s.relatives node).nextSibling }
      | none => s.modify parent fun r => { r with child := (s.relatives node).nextSibling }
    let s :=
      match (s.relatives node).nextSibling with
      | some next =>
        s.modify next fun r => { r with prevSibling := (s.relatives node).prevSibling }
      | none => s
    let s := vfsNodeUnref s parent
    s.modify node fun r => { r with parent := none }

/-! ### Calls -/

inductive Op
  | lookupMiss (node out : ℕ)
  | attachChild (node child : ℕ)
  | dettachChild (node : ℕ)

/-- New nodes have no links, and no node is attached twice. -/
def Op.Called (s : State) : Op → Prop
  | .lookupMiss _ out => s.relatives out = ⟨none, none, none, none⟩
  | .attachChild _ child => (s.relatives child).parent = none
  | .dettachChild _ => True

def step (s : State) : Op → State
  | .lookupMiss node out => vfsNodeLookupMiss s node out
  | .attachChild node child => vfsNodeAttachChild s node child
  | .dettachChild node => vfsNodeDettachChild s node

/-- The nodes that are attached to each directory. -/
def Op.attached (children : ℕ → List ℕ) : Op → ℕ → List ℕ
  | .lookupMiss node child => Function.update children node (child :: children node)
  | .attachChild node child => Function.update children node (child :: children node)
  | .dettachChild node => fun d => (children d).erase node

/-- The states that calls with a condition lead to, and what is attached in them. -/
inductive Reaches (Ok : State → Op → Prop) : State → (ℕ → List ℕ) → Prop
  | init (rc : ℕ → ℕ) : Reaches Ok ⟨fun _ => ⟨none, none, none, none⟩, rc⟩ fun _ => []
  | step {s : State} {children : ℕ → List ℕ} {op : Op} : Reaches Ok s children → op.Called s →
      Ok s op → Reaches Ok (step s op) (op.attached children)

/-- Every directory has a list of the nodes that are attached to it, and these know it. -/
structure WellFormed (s : State) (children : ℕ → List ℕ) : Prop where
  linked : ∀ d, ∃ last, Linked (fun n => (s.relatives n).nextSibling)
    (fun n => (s.relatives n).prevSibling) (s.relatives d).child last (children d)
  nodup : ∀ d, (children d).Nodup
  mem_iff : ∀ d n, n ∈ children d ↔ (s.relatives n).parent = some d

/-- A node that is attached has no link back. -/
def NoLinkBack (s : State) : Op → Prop
  | .attachChild _ child => (s.relatives child).prevSibling = none
  | _ => True

variable {s : State} {children : ℕ → List ℕ} {node child : ℕ}

/-! ### The links after a call -/

lemma modify_relatives (n : ℕ) (f : Relatives → Relatives) (u : ℕ) :
    (s.modify n f).relatives u = if u = n then f (s.relatives u) else s.relatives u := by
  show Function.update s.relatives n (f (s.relatives n)) u = _
  by_cases h : u = n
  · rw [h, Function.update_self, if_pos rfl]
  · rw [Function.update_of_ne h, if_neg h]

lemma linkFirst_relatives (u : ℕ) : (linkFirst s node child).relatives u =
    { parent := (s.relatives u).parent
      prevSibling :=
        if (s.relatives node).child = some u then some child else (s.relatives u).prevSibling
      nextSibling := if u = child then (s.relatives node).child else (s.relatives u).nextSibling
      child := if u = node then some child else (s.relatives u).child } := by
  have hchild : ((s.modify child fun r =>
    { r with nextSibling := (s.relatives node).child }).relatives
      node).child = (s.relatives node).child := by
    rw [modify_relatives]
    split <;> rfl
  rw [linkFirst]
  simp only [hchild]
  cases (s.relatives node).child with
  | none =>
    simp only [modify_relatives, reduceCtorEq, if_false]
    split_ifs <;> rfl
  | some first =>
    simp only [modify_relatives, Option.some.injEq, eq_comm (a := first)]
    split_ifs <;> rfl

lemma vfsNodeDettachChild_relatives {parent : ℕ} (hparent : (s.relatives node).parent = some parent)
    (hprev : (s.relatives node).prevSibling ≠ some node) (u : ℕ) :
    (vfsNodeDettachChild s node).relatives u =
    { parent := if u = node then none else (s.relatives u).parent
      prevSibling :=
        if (s.relatives node).nextSibling = some u then (s.relatives node).prevSibling
        else (s.relatives u).prevSibling
      nextSibling :=
        if (s.relatives node).prevSibling = some u then (s.relatives node).nextSibling
        else (s.relatives u).nextSibling
      child :=
        if u = parent ∧ (s.relatives node).prevSibling = none then (s.relatives node).nextSibling
        else (s.relatives u).child } := by
  rw [vfsNodeDettachChild]
  simp only [hparent]
  cases hp : (s.relatives node).prevSibling with
  | none =>
    have hkeep : ((s.modify parent fun r => { r with
        child := (s.relatives node).nextSibling }).relatives node).nextSibling =
        (s.relatives node).nextSibling := by
      rw [modify_relatives]
      split <;> rfl
    have hkeepPrev : ((s.modify parent fun r => { r with
        child := (s.relatives node).nextSibling }).relatives node).prevSibling = none := by
      rw [modify_relatives, ← hp]
      split <;> rfl
    simp only [hkeep, hkeepPrev]
    cases (s.relatives node).nextSibling with
    | none =>
      simp only [modify_relatives, vfsNodeUnref, reduceCtorEq, if_false, and_true]
      split_ifs <;> rfl
    | some next =>
      simp only [modify_relatives, vfsNodeUnref, Option.some.injEq, eq_comm (a := next), and_true,
        reduceCtorEq, if_false]
      split_ifs <;> rfl
  | some prev =>
    have hne : node ≠ prev := fun h => hprev (by rw [hp, h])
    have hkeep : (s.modify prev fun r => { r with
        nextSibling := (s.relatives node).nextSibling }).relatives node = s.relatives node := by
      rw [modify_relatives, if_neg hne]
    simp only [hkeep]
    cases (s.relatives node).nextSibling with
    | none =>
      simp only [modify_relatives, vfsNodeUnref, reduceCtorEq, if_false, and_false,
        Option.some.injEq, eq_comm (a := prev)]
      split_ifs <;> rfl
    | some next =>
      simp only [modify_relatives, vfsNodeUnref, Option.some.injEq, eq_comm (a := next),
        eq_comm (a := prev), and_false, reduceCtorEq, if_false, hp]
      split_ifs <;> rfl

/-- All links after a child without a parent was attached. -/
def Attached (s s' : State) (node child : ℕ) : Prop :=
  ∀ u, s'.relatives u =
    { parent := if u = child then some node else (s.relatives u).parent
      prevSibling :=
        if (s.relatives node).child = some u then some child else (s.relatives u).prevSibling
      nextSibling := if u = child then (s.relatives node).child else (s.relatives u).nextSibling
      child := if u = node then some child else (s.relatives u).child }

lemma vfsNodeLookupMiss_attached : Attached s (vfsNodeLookupMiss s node child) node child := by
  intro u
  have hparts : ∀ v, ((vfsNodeRef s node).modify child fun r =>
      { r with parent := some node }).relatives v =
      { s.relatives v with parent := if v = child then some node else (s.relatives v).parent } := by
    intro v
    rw [modify_relatives]
    by_cases hv : v = child
    · rw [if_pos hv, if_pos hv]
      rfl
    · rw [if_neg hv, if_neg hv]
      rfl
  rw [vfsNodeLookupMiss, linkFirst_relatives]
  simp only [hparts]

lemma vfsNodeAttachChild_attached (hparent : (s.relatives child).parent = none) :
    Attached s (vfsNodeAttachChild s node child) node child := by
  have hsame : vfsNodeAttachChild s node child = vfsNodeLookupMiss s node child := by
    rw [vfsNodeAttachChild, vfsNodeLookupMiss, hparent]
    rfl
  rw [hsame]
  exact vfsNodeLookupMiss_attached

/-! ### What a call keeps -/

lemma WellFormed.mem_of_child (hw : WellFormed s children) {d u : ℕ}
    (hu : (s.relatives d).child = some u) : u ∈ children d := by
  obtain ⟨last, hlinked⟩ := hw.linked d
  rw [hlinked.head_eq] at hu
  exact List.mem_of_head? hu

/-- **Attaching** keeps the lists, when the child has no link back. -/
theorem WellFormed.attached {s' : State} (hw : WellFormed s children)
    (hparent : (s.relatives child).parent = none)
    (hback : (s.relatives child).prevSibling = none) (hs' : Attached s s' node child) :
    WellFormed s' (Function.update children node (child :: children node)) := by
  have hfresh : ∀ d, child ∉ children d := by
    intro d hmem
    rw [hw.mem_iff, hparent] at hmem
    exact absurd hmem (by simp)
  refine ⟨fun d => ?_, fun d => ?_, fun d n => ?_⟩
  · obtain ⟨last, hlinked⟩ := hw.linked d
    by_cases hd : d = node
    · subst hd
      rw [Function.update_self]
      refine ⟨if (s.relatives d).child = none then some child else last, ?_⟩
      have hhead : (s'.relatives d).child = some child := by
        rw [hs']
        exact if_pos rfl
      rw [hhead]
      refine hlinked.pushFront (hw.nodup d) ⟨?_, ?_⟩ (fun u hu => ?_) fun u hu => ?_
      · have hnot : (s.relatives d).child ≠ some child := fun h => hfresh d (hw.mem_of_child h)
        rw [hs']
        exact (if_neg hnot).trans hback
      · rw [hs']
        exact if_pos rfl
      · rw [hs']
        exact if_neg (ne_of_mem_of_not_mem hu (hfresh d))
      · rw [hs']
    · rw [Function.update_of_ne hd]
      refine ⟨last, ?_⟩
      have hhead : (s'.relatives d).child = (s.relatives d).child := by
        rw [hs']
        exact if_neg hd
      rw [hhead]
      refine hlinked.congr (fun u hu => ?_) fun u hu => ?_
      · rw [hs']
        exact if_neg (ne_of_mem_of_not_mem hu (hfresh d))
      · have hnot : (s.relatives node).child ≠ some u := by
          intro h
          have hin := (hw.mem_iff node u).mp (hw.mem_of_child h)
          rw [(hw.mem_iff d u).mp hu] at hin
          exact hd (Option.some.inj hin)
        rw [hs']
        exact if_neg hnot
  · by_cases hd : d = node
    · subst hd
      rw [Function.update_self]
      exact List.nodup_cons.mpr ⟨hfresh d, hw.nodup d⟩
    · rw [Function.update_of_ne hd]
      exact hw.nodup d
  · rw [hs']
    show n ∈ _ ↔ (if n = child then some node else (s.relatives n).parent) = some d
    by_cases hn : n = child
    · subst hn
      rw [if_pos rfl, Option.some.injEq]
      by_cases hd : d = node
      · subst hd
        simp
      · rw [Function.update_of_ne hd]
        exact iff_of_false (hfresh d) fun h => hd h.symm
    · rw [if_neg hn, ← hw.mem_iff]
      by_cases hd : d = node
      · subst hd
        rw [Function.update_self, List.mem_cons, or_iff_right hn]
      · rw [Function.update_of_ne hd]

/-- **Taking out** keeps the lists, wherever the node is. -/
theorem WellFormed.dettached (hw : WellFormed s children) (node : ℕ) :
    WellFormed (vfsNodeDettachChild s node) fun d => (children d).erase node := by
  have hother : ∀ d, (s.relatives node).parent ≠ some d → (children d).erase node = children d :=
    fun d hd => List.erase_of_not_mem fun h => hd ((hw.mem_iff d node).mp h)
  cases hparent : (s.relatives node).parent with
  | none =>
    have hs : vfsNodeDettachChild s node = s := by
      rw [vfsNodeDettachChild, hparent]
    have hchildren : (fun d => (children d).erase node) = children :=
      funext fun d => hother d (by rw [hparent]; simp)
    rw [hs, hchildren]
    exact hw
  | some parent =>
    have hmem : node ∈ children parent := (hw.mem_iff parent node).mpr hparent
    obtain ⟨A, B, hsplit⟩ := List.append_of_mem hmem
    obtain ⟨last, hlinked⟩ := hw.linked parent
    have hnodup := hw.nodup parent
    rw [hsplit] at hlinked hnodup
    obtain ⟨hprevAt, hnextAt⟩ := hlinked.at
    have hnotA : node ∉ A := fun h =>
      (List.nodup_append'.mp hnodup).2.2 h (List.mem_cons_self ..)
    have herase : (children parent).erase node = A ++ B := by
      rw [hsplit, List.erase_append_right _ hnotA, List.erase_cons_head]
    have hprev : (s.relatives node).prevSibling ≠ some node := by
      rw [hprevAt]
      exact fun h => hnotA (List.mem_of_getLast? h)
    have hs' := vfsNodeDettachChild_relatives hparent hprev
    -- its neighbours have the same parent
    have hprevMem : ∀ u, (s.relatives node).prevSibling = some u → u ∈ children parent := by
      intro u hu
      rw [hprevAt] at hu
      rw [hsplit]
      exact List.mem_append_left _ (List.mem_of_getLast? hu)
    have hnextMem : ∀ u, (s.relatives node).nextSibling = some u → u ∈ children parent := by
      intro u hu
      rw [hnextAt] at hu
      rw [hsplit]
      exact List.mem_append_right _ (List.mem_cons_of_mem _ (List.mem_of_head? hu))
    refine ⟨fun d => ?_, fun d => (hw.nodup d).erase node, fun d n => ?_⟩
    · by_cases hd : d = parent
      · subst hd
        rw [herase]
        refine ⟨if (s.relatives node).nextSibling = none then (s.relatives node).prevSibling
          else last, ?_⟩
        have hhead : ((vfsNodeDettachChild s node).relatives d).child =
            if (s.relatives node).prevSibling = none then (s.relatives node).nextSibling
            else (s.relatives d).child := by
          rw [hs']
          simp
        rw [hhead]
        refine hlinked.remove hnodup (fun u hu => ?_) fun u hu => ?_
        · rw [hs']
        · rw [hs']
      · rw [hother d (by rw [hparent]; exact fun h => hd (Option.some.inj h).symm)]
        obtain ⟨last', hlinked'⟩ := hw.linked d
        refine ⟨last', ?_⟩
        have hhead : ((vfsNodeDettachChild s node).relatives d).child =
            (s.relatives d).child := by
          rw [hs']
          exact if_neg fun h => hd h.1
        have hapart : ∀ u ∈ children d, u ∉ children parent := by
          intro u hu hin
          have heq := (hw.mem_iff parent u).mp hin
          rw [(hw.mem_iff d u).mp hu] at heq
          exact hd (Option.some.inj heq)
        rw [hhead]
        refine hlinked'.congr (fun u hu => ?_) fun u hu => ?_
        · rw [hs']
          exact if_neg fun h => hapart u hu (hprevMem u h)
        · rw [hs']
          exact if_neg fun h => hapart u hu (hnextMem u h)
    · rw [hs', (hw.nodup d).mem_erase_iff, hw.mem_iff]
      show _ ↔ (if n = node then none else (s.relatives n).parent) = some d
      by_cases hn : n = node
      · rw [if_pos hn]
        simp [hn]
      · rw [if_neg hn, and_iff_right hn]

/-- **One call** keeps the lists. -/
theorem WellFormed.step {op : Op} (hw : WellFormed s children) (hcalled : op.Called s)
    (hback : NoLinkBack s op) : WellFormed (step s op) (op.attached children) := by
  cases op with
  | lookupMiss node out =>
    have hnew : s.relatives out = ⟨none, none, none, none⟩ := hcalled
    exact hw.attached (by rw [hnew]) (by rw [hnew]) vfsNodeLookupMiss_attached
  | attachChild node child =>
    exact hw.attached hcalled hback (vfsNodeAttachChild_attached hcalled)
  | dettachChild node => exact hw.dettached node

/-- A link back that is left over makes the list wrong at once. -/
theorem WellFormed.noLinkBack {op : Op} (hw : WellFormed s children) (hcalled : op.Called s)
    (hafter : WellFormed (ChildLists.step s op) (op.attached children)) : NoLinkBack s op := by
  cases op with
  | lookupMiss node out => trivial
  | dettachChild node => trivial
  | attachChild node child =>
    have hparent : (s.relatives child).parent = none := hcalled
    have hs' : Attached s (vfsNodeAttachChild s node child) node child :=
      vfsNodeAttachChild_attached hparent
    obtain ⟨last, hlinked⟩ := hafter.linked node
    have hnot : (s.relatives node).child ≠ some child := by
      intro h
      have hin := (hw.mem_iff node child).mp (hw.mem_of_child h)
      rw [hparent] at hin
      exact absurd hin (by simp)
    rw [Op.attached, Function.update_self] at hlinked
    have hfirst := (Linked.at (A := []) hlinked).1
    change ((vfsNodeAttachChild s node child).relatives child).prevSibling = none at hfirst
    rw [hs'] at hfirst
    exact (if_neg hnot).symm.trans hfirst

/-! ### Runs -/

/-- **Child lists stay well formed** in every run that attaches no node with a link back. -/
theorem Reaches.listsWellFormed (h : Reaches NoLinkBack s children) : WellFormed s children := by
  induction h with
  | init rc => exact ⟨fun d => ⟨none, linked_nil _ _⟩, fun d => List.nodup_nil, by simp⟩
  | step _ hcalled hback ih => exact ih.step hcalled hback

/-! ### The links forward

A link back that is left over does no harm to the links forward until the node is taken out. -/

/-- The nodes on the way forward from a directory. -/
def Forward (s : State) (d : ℕ) (l : List ℕ) : Prop :=
  ∃ prev last, Linked (fun n => (s.relatives n).nextSibling) prev (s.relatives d).child last l

lemma WellFormed.forward_attached (hw : WellFormed s children)
    (hparent : (s.relatives child).parent = none) (d : ℕ) :
    Forward (vfsNodeAttachChild s node child) d
      (Function.update children node (child :: children node) d) := by
  -- without the link the lists are right, and the links forward are the same
  set s₀ := s.modify child fun r => { r with prevSibling := none } with hs₀
  have hlinks : ∀ u, s₀.relatives u =
      { s.relatives u with
        prevSibling := if u = child then none else (s.relatives u).prevSibling } := by
    intro u
    rw [hs₀, modify_relatives]
    split_ifs <;> rfl
  have hw₀ : WellFormed s₀ children := by
    refine ⟨fun d => ?_, hw.nodup, fun d n => by rw [hw.mem_iff, hlinks]⟩
    obtain ⟨last, hlinked⟩ := hw.linked d
    rw [hlinks]
    refine ⟨last, hlinked.congr (fun u _ => by rw [hlinks]) fun u hu => ?_⟩
    have hne : u ≠ child := by
      rintro rfl
      rw [hw.mem_iff, hparent] at hu
      cases hu
    rw [hlinks, if_neg hne]
  have hparent₀ : (s₀.relatives child).parent = none := by rw [hlinks, hparent]
  have hback₀ : (s₀.relatives child).prevSibling = none := by rw [hlinks, if_pos rfl]
  have hs : Attached s (vfsNodeAttachChild s node child) node child :=
    vfsNodeAttachChild_attached hparent
  have hafter : Attached s₀ (vfsNodeAttachChild s₀ node child) node child :=
    vfsNodeAttachChild_attached hparent₀
  obtain ⟨last, hlinked⟩ := (hw₀.attached hparent₀ hback₀ hafter).linked d
  have hchild : ((vfsNodeAttachChild s₀ node child).relatives d).child =
      ((vfsNodeAttachChild s node child).relatives d).child := by
    rw [hafter, hs, hlinks]
  rw [hchild] at hlinked
  refine ⟨_, last, hlinked.congr (fun u _ => ?_) fun u _ => rfl⟩
  rw [hafter, hs, hlinks, hlinks]

/-- **Taking a node out and attaching it again**, wherever it was. -/
theorem WellFormed.forward_moved (hw : WellFormed s children) (n parent d : ℕ) :
    Forward (vfsNodeAttachChild (vfsNodeDettachChild s n) parent n) d
      (Function.update (fun d => (children d).erase n) parent (n :: (children parent).erase n)
        d) := by
  have hout := hw.dettached n
  refine hout.forward_attached ?_ d
  cases hp : ((vfsNodeDettachChild s n).relatives n).parent with
  | none => rfl
  | some p => exact absurd ((hout.mem_iff p n).mpr hp) (hw.nodup p).not_mem_erase

/-! ### Two children -/

/-- Two children are attached; one is taken out and attached again. -/
def attachedAgain (n : ℕ) : State :=
  step (step (step (step ⟨fun _ => ⟨none, none, none, none⟩, fun _ => 1⟩ (.attachChild 0 1))
    (.attachChild 0 2)) (.dettachChild n)) (.attachChild 0 n)

def childrenAgain (n : ℕ) : ℕ → List ℕ :=
  (Op.attachChild 0 n).attached ((Op.dettachChild n).attached
    ((Op.attachChild 0 2).attached ((Op.attachChild 0 1).attached fun _ => [])))

/-- The first child comes back without a link. -/
theorem wellFormed_attachedAgain : WellFormed (attachedAgain 2) (childrenAgain 2) :=
  Reaches.listsWellFormed (.step (.step (.step (.step (.init fun _ => 1) rfl rfl) rfl rfl) trivial
    trivial) rfl rfl)

/-- A child from behind the other one is the first child afterwards, and its link still leads back
to the other one. -/
theorem not_wellFormed_attachedAgain :
    ∃ s children, Reaches (fun _ _ => True) s children ∧ ¬ WellFormed s children := by
  refine ⟨attachedAgain 1, childrenAgain 1, .step (.step (.step (.step (.init fun _ => 1) rfl
    trivial) rfl trivial) trivial trivial) rfl trivial, ?_⟩
  intro hw
  obtain ⟨last, hlinked⟩ := hw.linked 0
  have hfirst := (Linked.at (A := []) (t := 1) (B := [2]) hlinked).1
  exact absurd hfirst (by decide)

end KernelModel.ChildLists
