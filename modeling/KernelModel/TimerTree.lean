import KernelModel.Timer

/-!
The timers in the tree, as long as no two of them get the same deadline.

Then no timer is ever in a chain: every pending timer is a node of the tree. A step takes its
timer out of the tree, changes it, and puts it back with its new deadline.
-/

namespace KernelModel.Timers

open RbTree

/-- No other pending timer has the deadline. -/
def Apart (s : State) (a key : ℕ) : Prop :=
  ∀ b ∈ s.created, Pending s b → b ≠ a → timerGetDeadline s b ≠ key

/-- The operation gives no timer a deadline that another one has; a timer that is set again when
it fires gets a deadline other than zero. -/
def Op.Apart (s : State) : Op → Prop
  | .create timer interval count clock => Timers.Apart s timer (newDeadline interval count clock)
  | .update timer interval count clock denied => denied = true ∨ (s.timer timer).isDeleted = true ∨
      Timers.Apart s timer (newDeadline interval count clock)
  | .delete _ _ => True
  | .dispatch time => ∀ a ∈ s.created, Expired s time a →
      (∀ b ∈ s.created, Expired s time b → timerGetDeadline s b ≤ timerGetDeadline s a) →
      1 < (s.timer a).count → (time + (s.timer a).interval) % 2 ^ 64 ≠ 0 ∧
        Timers.Apart s a ((time + (s.timer a).interval) % 2 ^ 64)

instance (s : State) (a key : ℕ) : Decidable (Apart s a key) :=
  inferInstanceAs (Decidable (∀ b ∈ s.created, _ → _ → _))

instance (s : State) : (o : Op) → Decidable (o.Apart s)
  | .create _ _ _ _ => inferInstanceAs (Decidable (Timers.Apart _ _ _))
  | .update _ _ _ _ _ => inferInstanceAs (Decidable (_ ∨ _ ∨ Timers.Apart _ _ _))
  | .delete _ _ => inferInstanceAs (Decidable True)
  | .dispatch _ => inferInstanceAs (Decidable (∀ a ∈ s.created, _ → (∀ b ∈ s.created, _ → _) → _ →
      _ ∧ Timers.Apart _ _ _))

/-- An operation that is called as it has to be, and gives no deadline twice. -/
def Op.Ok (s : State) (o : Op) : Prop := o.Called s ∧ o.Apart s

instance (s : State) (o : Op) : Decidable (o.Ok s) := inferInstanceAs (Decidable (_ ∧ _))

/-- The nodes of the tree are exactly the pending timers other than `a`, and no live timer is in
a chain. -/
structure Without (s : State) (a : ℕ) (N : List Label) : Prop where
  tree : IsRbTree s.tree N
  mem : ∀ b, b ∈ N.map Label.addr ↔ Pending s b ∧ b ≠ a
  alone : ∀ b, Live s b → (s.timer b).prev = 0 ∧ (s.timer b).next = 0
  aligned : ∀ b ∈ s.created, Aligned b

/-- The nodes of the tree are exactly the pending timers, and no live timer is in a chain. -/
structure Inv (s : State) (N : List Label) : Prop where
  tree : IsRbTree s.tree N
  mem : ∀ b, b ∈ N.map Label.addr ↔ Pending s b
  alone : ∀ b, Live s b → (s.timer b).prev = 0 ∧ (s.timer b).next = 0
  aligned : ∀ b ∈ s.created, Aligned b

variable {s s' : State} {a f : ℕ} {N : List Label}

/-! ### Deadlines -/

@[simp] lemma timerGetDeadline_modify (b c : ℕ) (g : Timer → Timer) :
    timerGetDeadline (s.modify b g) c = timerGetDeadline s c := rfl

lemma timerGetDeadline_setDeadline (b key c : ℕ) :
    timerGetDeadline (setDeadline s b key) c = if c = b then key else timerGetDeadline s c := by
  by_cases h : c = b
  · subst h
    simp [timerGetDeadline, setDeadline, State.withTree, setKey, Tree.modify]
  · simp [timerGetDeadline, setDeadline, State.withTree, setKey, Tree.modify, h]

lemma setKey_self (t : Tree) (x : Label) (h : (t.heap x.addr).key = x.key) : setKey t x = t := by
  have hheap : ({ t.heap x.addr with key := x.key } : Node) = t.heap x.addr := by rw [← h]
  rw [setKey, Tree.modify, hheap, Function.update_eq_self]

lemma Inv.label_mem (h : Inv s N) (ha : Pending s a) : ⟨a, timerGetDeadline s a⟩ ∈ N := by
  obtain ⟨x, hx, rfl⟩ := List.mem_map.mp ((h.mem a).mpr ha)
  rw [timerGetDeadline, (h.tree.isNode hx).2]
  exact hx

lemma Inv.pending (h : Inv s N) {x : Label} (hx : x ∈ N) :
    Pending s x.addr ∧ timerGetDeadline s x.addr = x.key :=
  ⟨(h.mem _).mp (List.mem_map_of_mem hx), (h.tree.isNode hx).2⟩

/-! ### Out of the tree -/

lemma Inv.removeNode (h : Inv s N) (ha : Pending s a) (hf : N.length < f) :
    ∃ tree N', rbTreeRemoveNode f s.tree a = some tree ∧ SameKeys s.tree tree ∧
      N'.length ≤ N.length ∧ Without (s.withTree tree) a N' := by
  have hx := h.label_mem ha
  obtain ⟨tree, htree, hrb⟩ := step_isRbTree h.tree (.removeNode hx) hf
  have hkeys := sameKeys_rbTreeRemoveNode htree
  refine ⟨tree, _, htree, hkeys, List.length_erase_le, hrb, fun b => ?_, h.alone, h.aligned⟩
  have hn : N.Nodup := h.tree.nodup.of_map _
  have hpend : Pending (s.withTree tree) b ↔ Pending s b := by
    simp [Pending, Live, timerGetDeadline, State.withTree, hkeys b]
  rw [hpend, ← h.mem b, List.mem_map, List.mem_map]
  constructor
  · rintro ⟨x, hxN, rfl⟩
    have hxN' := (hn.mem_erase_iff).mp hxN
    refine ⟨⟨x, hxN'.2, rfl⟩, fun he => hxN'.1 ?_⟩
    have hkey := (h.tree.isNode hxN'.2).2
    cases x
    simp_all [timerGetDeadline]
  · rintro ⟨⟨x, hxN, rfl⟩, hne⟩
    exact ⟨x, (hn.mem_erase_iff).mpr ⟨fun he => hne (by rw [he]), hxN⟩, rfl⟩

/-- **Out of the tree.** A live timer that is set is taken out; one that is not stays out. -/
lemma Inv.removeFromTree (h : Inv s N) (ha : a ∈ s.created)
    (hprev : (s.timer a).prev = 0) (hf : N.length < f) (hd : (s.timer a).isDeleted = false) :
    ∃ tree N', removeFromTree f s a = some (s.withTree tree) ∧ SameKeys s.tree tree ∧
      N'.length ≤ N.length ∧ Without (s.withTree tree) a N' := by
  rw [Timers.removeFromTree]
  by_cases hk : timerGetDeadline s a = 0
  · rw [if_neg (fun hc => hc.2 hk)]
    refine ⟨s.tree, N, rfl, SameKeys.refl _, le_rfl, h.tree, fun b => ?_, h.alone, h.aligned⟩
    rw [h.mem b]
    refine ⟨fun hb => ⟨hb, ?_⟩, fun hb => hb.1⟩
    rintro rfl
    exact hb.2 hk
  · rw [if_pos ⟨hprev, hk⟩]
    obtain ⟨tree, N', htree, hkeys, hlen, hw⟩ := h.removeNode ⟨⟨ha, hd⟩, hk⟩ hf
    exact ⟨tree, N', by rw [htree, Option.map_some], hkeys, hlen, hw⟩

lemma removeFromChain_alone (hp : (s.timer a).prev = 0) (hn : (s.timer a).next = 0) :
    removeFromChain f s a = some s := by
  have hself : ({ s.timer a with prev := 0, next := 0 } : Timer) = s.timer a := by
    cases ht : s.timer a
    simp_all
  simp [removeFromChain, hp, hn, State.modify, hself]

/-! ### Changes of the timer that is out -/

lemma Without.setDeadline (h : Without s a N) (key : ℕ) : Without (setDeadline s a key) a N := by
  have ha : a ∉ N.map Label.addr := fun hm => ((h.mem a).mp hm).2 rfl
  refine ⟨h.tree.setKey ha, fun b => ?_, h.alone, h.aligned⟩
  rw [h.mem b, Pending, Pending, timerGetDeadline_setDeadline]
  constructor
  · rintro ⟨hb, hne⟩
    exact ⟨⟨hb.1, by rw [if_neg hne]; exact hb.2⟩, hne⟩
  · rintro ⟨hb, hne⟩
    rw [if_neg hne] at hb
    exact ⟨hb, hne⟩

lemma timer_modify (b c : ℕ) (g : Timer → Timer) :
    (s.modify b g).timer c = if c = b then g (s.timer b) else s.timer c := by
  by_cases h : c = b
  · subst h
    simp [State.modify]
  · simp [State.modify, h]

/-- Changing other fields than the links; a deleted timer does not come back. -/
lemma Without.modify (h : Without s a N) {g : Timer → Timer} (hprev : ∀ t, (g t).prev = t.prev)
    (hnext : ∀ t, (g t).next = t.next)
    (hdel : (g (s.timer a)).isDeleted = false → (s.timer a).isDeleted = false) :
    Without (s.modify a g) a N := by
  have hlive : ∀ b, Live (s.modify a g) b → Live s b := by
    rintro b ⟨hc, hd⟩
    rw [timer_modify] at hd
    split at hd
    · subst b
      exact ⟨hc, hdel hd⟩
    · exact ⟨hc, hd⟩
  refine ⟨h.tree, fun b => ?_, fun b hb => ?_, h.aligned⟩
  · rw [h.mem b]
    constructor
    · rintro ⟨hb, hne⟩
      refine ⟨⟨⟨hb.1.1, ?_⟩, hb.2⟩, hne⟩
      rw [timer_modify, if_neg hne]
      exact hb.1.2
    · rintro ⟨hb, hne⟩
      exact ⟨⟨hlive b hb.1, hb.2⟩, hne⟩
  · rw [timer_modify]
    split
    · subst b
      rw [hprev, hnext]
      exact h.alone a (hlive a hb)
    · exact h.alone b (hlive b hb)

/-! ### Back into the tree -/

lemma Without.inv (h : Without s a N) (ha : ¬ Pending s a) : Inv s N := by
  refine ⟨h.tree, fun b => ?_, h.alone, h.aligned⟩
  rw [h.mem b]
  refine ⟨fun hb => hb.1, fun hb => ⟨hb, ?_⟩⟩
  rintro rfl
  exact ha hb

/-- **Back into the tree** with a deadline that no other timer has. -/
lemma Without.scheduleTimer (h : Without s a N) (ha : Pending s a)
    (hk : Apart s a (timerGetDeadline s a)) (hf : N.length < f) :
    ∃ tree, scheduleTimer f s a = some (s.withTree tree) ∧ SameKeys s.tree tree ∧
      Inv (s.withTree tree) (⟨a, timerGetDeadline s a⟩ :: N) := by
  have hout : a ∉ N.map Label.addr := fun hm => ((h.mem a).mp hm).2 rfl
  have hkey : timerGetDeadline s a ∉ N.map Label.key := by
    intro hm
    obtain ⟨x, hx, hxk⟩ := List.mem_map.mp hm
    obtain ⟨hp, hne⟩ := (h.mem x.addr).mp (List.mem_map_of_mem hx)
    exact hk x.addr hp.1.1 hp hne ((h.tree.isNode hx).2.trans hxk)
  obtain ⟨tree, htree, hrb⟩ := h.tree.insert (x := ⟨a, timerGetDeadline s a⟩)
    ⟨h.aligned a ha.1.1, hout, hkey⟩ hf
  rw [setKey_self s.tree ⟨a, timerGetDeadline s a⟩ rfl] at htree
  have hkeys := sameKeys_rbTreeLookupOrInsertNode htree
  refine ⟨tree, by rw [Timers.scheduleTimer, htree]; simp, hkeys, hrb, fun b => ?_, h.alone,
    h.aligned⟩
  have hpend : Pending (s.withTree tree) b ↔ Pending s b := by
    simp [Pending, Live, timerGetDeadline, State.withTree, hkeys b]
  rw [hpend, List.map_cons, List.mem_cons, h.mem b]
  constructor
  · rintro (rfl | hb)
    · exact ha
    · exact hb.1
  · intro hb
    by_cases hne : b = a
    · exact .inl hne
    · exact .inr ⟨hb, hne⟩

/-! ### Everything but one timer -/

/-- Nothing but the timer `a` has changed. -/
structure SameBut (a : ℕ) (s s' : State) : Prop where
  created : ∀ b, b ≠ a → (b ∈ s'.created ↔ b ∈ s.created)
  timer : ∀ b, b ≠ a → s'.timer b = s.timer b
  deadline : ∀ b, b ≠ a → timerGetDeadline s' b = timerGetDeadline s b

namespace SameBut

lemma withTree {tree : Tree} (h : SameKeys s.tree tree) : SameBut a s (s.withTree tree) :=
  ⟨fun _ _ => Iff.rfl, fun _ _ => rfl, fun b _ => h b⟩

lemma setDeadline (h : SameBut a s s') (key : ℕ) : SameBut a s (setDeadline s' a key) := by
  refine ⟨h.created, h.timer, fun b hb => ?_⟩
  rw [timerGetDeadline_setDeadline, if_neg hb, h.deadline b hb]

lemma modify (h : SameBut a s s') (g : Timer → Timer) : SameBut a s (s'.modify a g) := by
  refine ⟨h.created, fun b hb => ?_, h.deadline⟩
  rw [timer_modify, if_neg hb, h.timer b hb]

lemma newTimer (s : State) (a : ℕ) : SameBut a s (newTimer s a) := by
  refine ⟨fun b hb => ?_, fun b hb => ?_, fun b hb => ?_⟩
  · simp [Timers.newTimer, hb]
  · simp [Timers.newTimer, hb]
  · simp [Timers.newTimer, timerGetDeadline, setKey, Tree.modify, hb]

lemma pending (h : SameBut a s s') {b : ℕ} (hb : b ≠ a) : Pending s' b ↔ Pending s b := by
  rw [Pending, Pending, Live, Live, h.created b hb, h.timer b hb, h.deadline b hb]

lemma apart (h : SameBut a s s') {key : ℕ} (hk : Apart s a key) : Apart s' a key := by
  intro b hb hp hne
  rw [h.deadline b hne]
  exact hk b ((h.created b hne).mp hb) ((h.pending hne).mp hp) hne

end SameBut

/-! ### The operations -/

lemma Without.reschedule (h : Without s a N) (ha : Live s a)
    (hk : Apart s a (timerGetDeadline s a)) (hf : N.length < f) :
    ∃ tree N', (if timerGetDeadline s a ≠ 0 then Timers.scheduleTimer f s a else some s)
        = some (s.withTree tree) ∧ Inv (s.withTree tree) N' ∧ N'.length ≤ N.length + 1 := by
  by_cases h0 : timerGetDeadline s a = 0
  · rw [if_neg (fun hc => hc h0)]
    exact ⟨s.tree, N, rfl, h.inv fun hp => hp.2 h0, by omega⟩
  · rw [if_pos h0]
    obtain ⟨tree, htree, -, hinv⟩ := h.scheduleTimer ⟨ha, h0⟩ hk hf
    exact ⟨tree, _, htree, hinv, le_rfl⟩

lemma timerUpdate_spec {interval count clock : ℕ} {denied : Bool} (h : Inv s N)
    (ha : a ∈ s.created) (hk : denied = true ∨ (s.timer a).isDeleted = true ∨
      Apart s a (newDeadline interval count clock)) (hf : N.length < f) :
    ∃ s' N', timerUpdate f s a interval count clock denied = some s' ∧ Inv s' N' ∧
      N'.length ≤ N.length + 1 := by
  rw [timerUpdate]
  by_cases hden : denied = true
  · rw [if_pos hden]
    exact ⟨s, N, rfl, h, by omega⟩
  by_cases hdel : (s.timer a).isDeleted = true
  · rw [if_neg hden, if_pos hdel]
    exact ⟨s, N, rfl, h, by omega⟩
  have hapart : Apart s a (newDeadline interval count clock) := by
    rcases hk with hk | hk | hk
    · exact absurd hk hden
    · exact absurd hk hdel
    · exact hk
  have hlive : Live s a := ⟨ha, by simpa using hdel⟩
  obtain ⟨hprev, hnext⟩ := h.alone a hlive
  rw [if_neg hden, if_neg hdel]
  -- out of the tree
  obtain ⟨tree, N', htree, hkeys, hlen, hw⟩ := h.removeFromTree ha hprev hf hlive.2
  rw [htree, Option.bind_some,
    removeFromChain_alone (s := Timers.setDeadline (s.withTree tree) a 0) hprev hnext,
    Option.bind_some]
  -- the new deadline, and the fields that go with it
  obtain ⟨g, hg, hgp, hgn, hgd⟩ : ∃ g : Timer → Timer,
      (∀ t : State, (if count = timerCountAbsoluteTime then
          t.modify a fun t => { t with count := 0 }
        else t.modify a fun t => { t with interval := interval, count := count }) = t.modify a g) ∧
      (∀ t, (g t).prev = t.prev) ∧ (∀ t, (g t).next = t.next) ∧
      ∀ t, (g t).isDeleted = t.isDeleted := by
    by_cases hc : count = timerCountAbsoluteTime
    · exact ⟨fun t => { t with count := 0 }, fun t => by rw [if_pos hc], fun _ => rfl,
        fun _ => rfl, fun _ => rfl⟩
    · exact ⟨fun t => { t with interval := interval, count := count }, fun t => by rw [if_neg hc],
        fun _ => rfl, fun _ => rfl, fun _ => rfl⟩
  simp only [hg]
  have hw' := ((hw.setDeadline 0).setDeadline (newDeadline interval count clock)).modify hgp hgn
    (fun hd => by rwa [hgd] at hd)
  have hsame := (((SameBut.withTree (a := a) hkeys).setDeadline 0).setDeadline
    (newDeadline interval count clock)).modify g
  set s₁ := (Timers.setDeadline (Timers.setDeadline (s.withTree tree) a 0) a
    (newDeadline interval count clock)).modify a g with hs₁
  have hkey : timerGetDeadline s₁ a = newDeadline interval count clock := by
    rw [hs₁, timerGetDeadline_modify, timerGetDeadline_setDeadline, if_pos rfl]
  have hlive₁ : Live s₁ a := ⟨ha, by rw [hs₁, timer_modify, if_pos rfl, hgd]; exact hlive.2⟩
  obtain ⟨tree', N'', hs', hinv, hlen'⟩ := hw'.reschedule hlive₁
    (by rw [hkey]; exact hsame.apart hapart) (hlen.trans_lt hf)
  exact ⟨_, N'', hs', hinv, by omega⟩

lemma Inv.newTimer (h : Inv s N) (ha : Aligned a) (hn : ¬ Live s a) : Inv (newTimer s a) N := by
  have hout : a ∉ N.map Label.addr := fun hm => hn ((h.mem a).mp hm).1
  have hself : ¬ Pending (Timers.newTimer s a) a := by
    simp [Pending, timerGetDeadline, Timers.newTimer, setKey, Tree.modify]
  have hsame := SameBut.newTimer s a
  refine ⟨h.tree.setKey hout, fun b => ?_, fun b hb => ?_, fun b hb => ?_⟩
  · by_cases hne : b = a
    · subst hne
      exact iff_of_false hout hself
    · rw [h.mem b, hsame.pending hne]
  · by_cases hne : b = a
    · subst hne
      simp [Timers.newTimer]
    · rw [hsame.timer b hne]
      refine h.alone b ⟨(hsame.created b hne).mp hb.1, ?_⟩
      rw [← hsame.timer b hne]
      exact hb.2
  · rcases List.mem_cons.mp hb with rfl | hb
    · exact ha
    · exact h.aligned b hb

lemma timerCreate_spec {interval count clock : ℕ} (h : Inv s N) (ha : Aligned a)
    (hn : ¬ Live s a) (hk : Apart s a (newDeadline interval count clock)) (hf : N.length < f) :
    ∃ s' N', timerCreate f s a interval count clock = some s' ∧ Inv s' N' ∧
      N'.length ≤ N.length + 1 :=
  timerUpdate_spec (h.newTimer ha hn) (List.mem_cons_self ..)
    (.inr (.inr ((SameBut.newTimer s a).apart hk))) hf

lemma timerDelete_spec {denied : Bool} (h : Inv s N) (ha : a ∈ s.created) (hf : N.length < f) :
    ∃ s' N', timerDelete f s a denied = some s' ∧ Inv s' N' ∧ N'.length ≤ N.length + 1 := by
  rw [timerDelete]
  by_cases hden : denied = true
  · rw [if_pos hden]
    exact ⟨s, N, rfl, h, by omega⟩
  by_cases hdel : (s.timer a).isDeleted = true
  · rw [if_neg hden, if_pos hdel]
    exact ⟨s, N, rfl, h, by omega⟩
  have hlive : Live s a := ⟨ha, by simpa using hdel⟩
  obtain ⟨hprev, hnext⟩ := h.alone a hlive
  rw [if_neg hden, if_neg hdel]
  -- the mark and the removal do not depend on each other
  obtain ⟨tree, N', htree, -, hlen, hw⟩ := h.removeFromTree ha hprev hf hlive.2
  have hw' := hw.modify (g := fun t => { t with isDeleted := true }) (fun _ => rfl) (fun _ => rfl)
    (by simp)
  have hremove : Timers.removeFromTree f (s.modify a fun t => { t with isDeleted := true }) a
      = some ((s.withTree tree).modify a fun t => { t with isDeleted := true }) := by
    rw [Timers.removeFromTree] at htree ⊢
    rw [timer_modify, if_pos rfl, timerGetDeadline_modify]
    split at htree
    · rename_i hc
      rw [Option.map_eq_some_iff] at htree
      obtain ⟨t, ht, hst⟩ := htree
      rw [if_pos hc, State.modify, ht, Option.map_some, ← hst]
      rfl
    · rename_i hc
      rw [if_neg hc, ← Option.some.inj htree]
  simp only [hremove, Option.bind_some]
  rw [removeFromChain_alone (by simp [timer_modify, State.withTree, hprev])
    (by simp [timer_modify, State.withTree, hnext])]
  refine ⟨_, N', rfl, hw'.inv fun hp => ?_, by omega⟩
  have := hp.1.2
  simp [timer_modify] at this

/-! ### Dispatching -/

lemma fireTimer_spec {time : ℕ} (h : Inv s N) (ha : Pending s a)
    (hk : 1 < (s.timer a).count → (time + (s.timer a).interval) % 2 ^ 64 ≠ 0 ∧
      Apart s a ((time + (s.timer a).interval) % 2 ^ 64)) (hf : N.length < f) :
    ∃ s' N', fireTimer f s a time = some s' ∧ Inv s' N' ∧ N'.length ≤ N.length + 1 ∧
      s'.fired = s.fired ++ [a] := by
  obtain ⟨hprev, hnext⟩ := h.alone a ha.1
  obtain ⟨tree, N', htree, hkeys, hlen, hw⟩ := h.removeNode ha hf
  obtain ⟨s₁, hs₁⟩ : ∃ s₁ : State, s₁ = { s.withTree tree with fired := s.fired ++ [a] } := ⟨_, rfl⟩
  have htimer : s₁.timer = s.timer := by rw [hs₁]; rfl
  have hfire : fireTimer f s a time = if (s₁.timer a).count ≤ 1 then
        some ((Timers.setDeadline s₁ a 0).modify a fun t => { t with count := 0 })
      else
        let s₂ := s₁.modify a fun t => { t with count := t.count - 1 }
        Timers.scheduleTimer f
          (Timers.setDeadline s₂ a ((time + (s₂.timer a).interval) % 2 ^ 64)) a := by
    rw [fireTimer, htree, Option.bind_some,
      removeFromChain_alone (s := s.withTree tree) hprev hnext, Option.bind_some, hs₁]
    rfl
  have hfired : s₁.fired = s.fired ++ [a] := by rw [hs₁]
  have hw₁ : Without s₁ a N' := by
    rw [hs₁]
    exact ⟨hw.tree, hw.mem, hw.alone, hw.aligned⟩
  have hsame : SameBut a s s₁ := by
    rw [hs₁]
    exact ⟨fun _ _ => Iff.rfl, fun _ _ => rfl, fun b _ => hkeys b⟩
  have hcreated : a ∈ s₁.created := by
    rw [hs₁]
    exact ha.1.1
  rw [hfire, htimer]
  by_cases hc : (s.timer a).count ≤ 1
  · rw [if_pos hc]
    have hw₂ := (hw₁.setDeadline 0).modify (g := fun t => { t with count := 0 }) (fun _ => rfl)
      (fun _ => rfl) id
    refine ⟨_, N', rfl, hw₂.inv fun hp => ?_, by omega, hfired⟩
    exact hp.2 (by rw [timerGetDeadline_modify, timerGetDeadline_setDeadline, if_pos rfl])
  · rw [if_neg hc]
    obtain ⟨h0, hapart⟩ := hk (by omega)
    have hw₂ := (hw₁.modify (g := fun t => { t with count := t.count - 1 }) (fun _ => rfl)
      (fun _ => rfl) id).setDeadline ((time + (s.timer a).interval) % 2 ^ 64)
    have hsame₂ := (hsame.modify fun t => { t with count := t.count - 1 }).setDeadline
      ((time + (s.timer a).interval) % 2 ^ 64)
    have hinterval : ((s₁.modify a fun t => { t with count := t.count - 1 }).timer a).interval
        = (s.timer a).interval := by
      rw [timer_modify, if_pos rfl, htimer]
    simp only [hinterval]
    set s₂ := Timers.setDeadline (s₁.modify a fun t => { t with count := t.count - 1 }) a
      ((time + (s.timer a).interval) % 2 ^ 64) with hs₂
    have hkey : timerGetDeadline s₂ a = (time + (s.timer a).interval) % 2 ^ 64 := by
      rw [hs₂, timerGetDeadline_setDeadline, if_pos rfl]
    have hpend : Pending s₂ a := by
      refine ⟨⟨hcreated, ?_⟩, by rw [hkey]; exact h0⟩
      have hdel : (s₂.timer a).isDeleted
          = ((s₁.modify a fun t => { t with count := t.count - 1 }).timer a).isDeleted := rfl
      rw [hdel, timer_modify, if_pos rfl, htimer]
      exact ha.1.2
    obtain ⟨tree', hs', -, hinv⟩ := hw₂.scheduleTimer hpend
      (by rw [hkey]; exact hsame₂.apart hapart) (hlen.trans_lt hf)
    exact ⟨_, _, hs', hinv, by rw [List.length_cons]; omega, hfired⟩

/-- What a dispatch does: it fires the expired timer with the latest deadline, if there is an
expired timer, and asks to be called again at once if another one is left. -/
structure Fires (s : State) (time : ℕ) (s' : State) (out : ℕ) : Prop where
  fires : ∀ a, Expired s time a → ∃ b, Expired s time b ∧ s'.fired = s.fired ++ [b] ∧
    ∀ c, Expired s time c → timerGetDeadline s c ≤ timerGetDeadline s b
  quiet : (∀ a, ¬ Expired s time a) → s'.fired = s.fired
  again : ∀ a, Expired s' time a → out = 0

lemma Inv.untilNext_eq_zero (h : Inv s N) {first time : ℕ} (hfirst : IsFirst N first)
    (ha : Expired s time a) : untilNext s first time = 0 := by
  have hx := h.label_mem ha.1
  rcases hfirst with ⟨-, hnil⟩ | ⟨x, hxN, rfl, hmin⟩
  · rw [hnil] at hx
    exact absurd hx (by simp)
  · have hle := hmin _ hx
    have hkey := (h.pending hxN).2
    have hdue := ha.2
    rw [untilNext, if_neg (h.tree.isNode hxN).1.1, hkey, if_neg]
    simp only at hle
    omega

lemma timerDispatchTimers_spec {time : ℕ} (h : Inv s N) (hk : (Op.dispatch time).Apart s)
    (hf : N.length + 1 < f) :
    ∃ s' out N', timerDispatchTimers f s time = some (s', out) ∧ Inv s' N' ∧
      N'.length ≤ N.length + 1 ∧ Fires s time s' out := by
  obtain ⟨x, hx, hlast⟩ := rbTreeLookupDecreasingNode_spec h.tree time (by omega : N.length < f)
  rw [timerDispatchTimers, hx, Option.bind_some]
  rcases hlast with ⟨rfl, hlate⟩ | ⟨x, hxN, rfl, hxk, hmax⟩
  · have hnone : ∀ a, ¬ Expired s time a := fun a ha => by
      have := hlate _ (h.label_mem ha.1)
      have := ha.2
      simp only at *
      omega
    obtain ⟨first, hfirst, hfs⟩ := rbTreeIterStart_spec h.tree (by omega : N.length ≤ f)
    refine ⟨s, untilNext s first time, N, by simp [hfirst], h, by omega, ?_⟩
    exact ⟨fun a ha => absurd ha (hnone a), fun _ => rfl, fun a ha => absurd ha (hnone a)⟩
  · obtain ⟨hp, hkey⟩ := h.pending hxN
    have hexp : Expired s time x.addr := ⟨hp, by rw [hkey]; exact hxk⟩
    have hlatest : ∀ c, Expired s time c → timerGetDeadline s c ≤ timerGetDeadline s x.addr := by
      intro c hc
      rw [hkey]
      exact hmax _ (h.label_mem hc.1) hc.2
    obtain ⟨s', N', hs', hinv, hlen, hfired⟩ := fireTimer_spec h hp
      (hk x.addr hp.1.1 hexp fun b _ hb => hlatest b hb) (by omega : N.length < f)
    obtain ⟨first, hfirst, hfs⟩ := rbTreeIterStart_spec hinv.tree (by omega : N'.length ≤ f)
    refine ⟨s', untilNext s' first time, N', ?_, hinv, hlen, ?_⟩
    · rw [if_neg (h.tree.isNode hxN).1.1, hs', Option.bind_some, hfirst, Option.map_some]
    · exact
        { fires := fun a _ => ⟨x.addr, hexp, hfired, hlatest⟩
          quiet := fun hq => absurd hexp (hq _)
          again := fun a ha => hinv.untilNext_eq_zero hfs ha }

/-! ### Runs -/

lemma step_inv {o : Op} (h : Inv s N) (ho : o.Ok s) (hf : N.length + 1 < f) :
    ∃ s' N', step f s o = some s' ∧ Inv s' N' ∧ N'.length ≤ N.length + 1 := by
  obtain ⟨hc, hk⟩ := ho
  rw [step, if_pos hc]
  cases o with
  | create timer interval count clock => exact timerCreate_spec h hc.1 hc.2 hk (by omega)
  | update timer interval count clock denied => exact timerUpdate_spec h hc hk (by omega)
  | delete timer denied => exact timerDelete_spec h hc (by omega)
  | dispatch time =>
    obtain ⟨s', out, N', hs', hinv, hlen, -⟩ := timerDispatchTimers_spec h hk hf
    exact ⟨s', N', by rw [perform, hs', Option.map_some], hinv, hlen⟩

lemma run_inv : ∀ {os : List Op} {s : State} {N : List Label}, Inv s N →
    Runs.Along (step f) (fun s o => o.Ok s) s os → N.length + os.length < f →
    ∃ s' N', Runs.run (step f) s os = some s' ∧ Inv s' N' ∧ N'.length ≤ N.length + os.length
  | [], s, N, h, _, _ => ⟨s, N, rfl, h, by simp⟩
  | o :: os, s, N, h, hok, hf => by
    rw [List.length_cons] at hf
    obtain ⟨s₁, N₁, hs₁, h₁, hlen₁⟩ := step_inv h hok.1 (by omega : N.length + 1 < f)
    obtain ⟨s', N', hs', h', hlen'⟩ := run_inv h₁ (hok.2 s₁ hs₁) (by omega)
    refine ⟨s', N', by rw [Runs.run_cons, hs₁, Option.bind_some, hs'], h', ?_⟩
    rw [List.length_cons]
    omega

lemma Inv.registered (h : Inv s N) : Registered s := by
  have hflat : (N.flatMap fun x => [x.addr]) = N.map Label.addr := by
    rw [List.map_eq_flatMap]
  refine ⟨N, fun _ => [], h.tree, fun x hx => ?_, ?_, fun a => ?_⟩
  · obtain ⟨hp, hkey⟩ := h.pending hx
    obtain ⟨hprev, hnext⟩ := h.alone _ hp.1
    refine ⟨⟨hprev, hnext, trivial⟩, fun a ha => ?_⟩
    rw [List.mem_singleton.mp ha, hkey]
  · rw [hflat]
    exact h.tree.nodup
  · rw [hflat]
    exact h.mem a

lemma start_inv (heap : ℕ → Node) (timer : ℕ → Timer) : Inv (start heap timer) [] := by
  refine ⟨⟨.nil, 0, rfl, trivial, by simp [addrs, RedBlack.CTree.toList], .nil, .nil, .refl _⟩,
    fun b => ?_, fun b hb => absurd hb.1 (by simp [start]), fun b hb => absurd hb (by simp [start])⟩
  simp [Pending, Live, start]

/-- **In every run that gives no deadline twice** every pending timer is registered once after
every operation, and a dispatch fires the latest of the timers whose deadline has passed. -/
theorem registered_of_apart {os : List Op} (heap : ℕ → Node) (timer : ℕ → Timer)
    (hok : Runs.Along (step f) (fun s o => o.Ok s) (start heap timer) os) (hf : os.length + 1 < f) :
    ∃ s, Runs.run (step f) (start heap timer) os = some s ∧ Registered s ∧
      ∀ time, (Op.dispatch time).Ok s → ∃ s' out, timerDispatchTimers f s time = some (s', out) ∧
        Registered s' ∧ Fires s time s' out := by
  obtain ⟨s, N, hs, hinv, hlen⟩ := run_inv (start_inv heap timer) hok (by simp; omega)
  rw [List.length_nil, Nat.zero_add] at hlen
  refine ⟨s, hs, hinv.registered, fun time ho => ?_⟩
  obtain ⟨s', out, N', hs', hinv', -, hfires⟩ := timerDispatchTimers_spec hinv ho.2
    (by omega : N.length + 1 < f)
  exact ⟨s', out, hs', hinv'.registered, hfires⟩

/-- Memory that is zero everywhere. -/
def blank : State := start (fun _ => ⟨0, 0, fun _ => 0⟩) fun _ => ⟨0, 0, 0, 0, false⟩

/-- Three timers, one of which fires, is set again and fires once more. -/
def threeTimers : List Op :=
  [.create 16 5 0 0, .create 32 7 0 0, .create 48 4 2 4, .dispatch 10, .update 16 6 1 10 false,
    .delete 32 false, .dispatch 15]

theorem threeTimers_registered : ∃ s, Runs.run (step 16) blank threeTimers = some s ∧
    Registered s ∧ ∀ time, (Op.dispatch time).Ok s → ∃ s' out,
      timerDispatchTimers 16 s time = some (s', out) ∧ Registered s' ∧ Fires s time s' out :=
  registered_of_apart _ _ (by decide +kernel) (by decide)

/-! ### What goes otherwise -/

lemma isRbTree_single {t : Tree} {x : Label} (h : IsRbTree t N) (hroot : t.root = x.addr)
    (hx : x.addr ≠ 0) (hkey : (t.heap x.addr).key = x.key) (hl : child t x.addr false = 0)
    (hr : child t x.addr true = 0) : N = [x] := by
  obtain ⟨u, n, hu, hrep, -, -, -, hp⟩ := h
  cases u with
  | nil => exact absurd (hroot.symm.trans hu) hx
  | node c l a r =>
    obtain ⟨ha, hal, har⟩ := hrep
    have haddr : a.addr = x.addr := by rw [← hroot, hu]; rfl
    have hleft : ptr l = 0 := by rw [← ha.near, haddr, hl]
    have hright : ptr r = 0 := by rw [← ha.far, haddr]; exact hr
    obtain rfl := hal.eq_nil hleft
    obtain rfl := har.eq_nil hright
    have hax : a = x := by
      have hk := ha.key
      rw [haddr, hkey] at hk
      obtain ⟨aa, ak⟩ := a
      obtain ⟨xa, xk⟩ := x
      rw [Label.mk.injEq]
      exact ⟨haddr, hk.symm⟩
    subst hax
    exact (List.singleton_perm.mp hp).symm

/-- Two timers whose deadlines have passed: a dispatch fires the later one only. And two timers
with one deadline: the second is linked to itself, and not reached from the tree. -/
theorem expired_left_and_unregistered :
    (∃ s s', Runs.run (step 8) blank [.create 16 5 0 0, .create 32 7 0 0] = some s ∧
      Expired s 10 16 ∧ Expired s 10 32 ∧ timerDispatchTimers 8 s 10 = some (s', 0) ∧
      s'.fired = [32] ∧ Expired s' 10 16) ∧
    ∃ s, Runs.run (step 8) blank [.create 16 5 0 0, .create 32 5 0 0] = some s ∧
      ¬ Registered s := by
  constructor
  · have hrun : ((Runs.run (step 8) blank [.create 16 5 0 0, .create 32 7 0 0]).bind fun s =>
        (timerDispatchTimers 8 s 10).map fun r =>
          (decide (Expired s 10 16), decide (Expired s 10 32), r.2, r.1.fired,
            decide (Expired r.1 10 16))) = some (true, true, 0, [32], true) := by
      decide +kernel
    obtain ⟨s, hs, hd⟩ := Option.bind_eq_some_iff.mp hrun
    obtain ⟨⟨s', out⟩, hs', heq⟩ := Option.map_eq_some_iff.mp hd
    simp only [Prod.mk.injEq, decide_eq_true_eq] at heq
    obtain ⟨h16, h32, rfl, hfired, hleft⟩ := heq
    exact ⟨s, s', hs, h16, h32, hs', hfired, hleft⟩
  · have hrun : (Runs.run (step 8) blank [.create 16 5 0 0, .create 32 5 0 0]).map (fun s =>
        (s.created, [s.tree.root, (s.tree.heap 16).key, child s.tree 16 false,
          child s.tree 16 true, (s.timer 16).next], decide (Pending s 32)))
        = some ([32, 16], [16, 5, 0, 0, 0], true) := by
      decide +kernel
    obtain ⟨s, hs, heq⟩ := Option.map_eq_some_iff.mp hrun
    simp only [Prod.mk.injEq, List.cons.injEq, and_true, decide_eq_true_eq] at heq
    obtain ⟨hcreated, ⟨hroot, hkey, hl, hr, hnext⟩, hpend⟩ := heq
    refine ⟨s, hs, ?_⟩
    rintro ⟨N, chain, htree, hchain, -, hmem⟩
    obtain rfl := isRbTree_single (x := ⟨16, 5⟩) htree hroot (by decide) hkey hl hr
    have h32 := (hmem 32).mpr hpend
    have hlink := (hchain _ (List.mem_singleton.mpr rfl)).1.2.1
    rw [hnext] at hlink
    simp only [List.flatMap_cons, List.flatMap_nil, List.append_nil, List.mem_cons] at h32 hmem
    cases hc : chain 16 with
    | nil => simp [hc] at h32
    | cons b l =>
      -- the next one would be the null pointer
      rw [hc] at hlink
      have hb := ((hmem b).mp (.inr (by rw [hc]; exact List.mem_cons_self ..))).1.1
      rw [List.headD_cons] at hlink
      rw [hcreated, ← hlink] at hb
      simp at hb

end KernelModel.Timers
