import KernelModel.Resource

/-!
The regions of a manager are the used ids of its range.

Every call works at one place of the tree: the regions before and behind it stay, and what
stands between them covers the same ids as before.
-/

namespace KernelModel.Resource

open KeyTree

/-! ### Regions that cover a range -/

section

variable {lo mid hi x : ℕ} {A B t : List Region} {r : Region}

lemma tiles_append : Tiles lo (A ++ B) hi ↔ ∃ mid, Tiles lo A mid ∧ Tiles mid B hi := by
  induction A generalizing lo with
  | nil => simp [Tiles]
  | cons a A ih =>
    rw [List.cons_append, Tiles, ih]
    simp only [Tiles]
    constructor
    · rintro ⟨hk, hl, mid, hA, hB⟩
      exact ⟨mid, ⟨hk, hl, hA⟩, hB⟩
    · rintro ⟨mid, ⟨hk, hl, hA⟩, hB⟩
      exact ⟨hk, hl, mid, hA, hB⟩

lemma Tiles.le (h : Tiles lo t hi) : lo ≤ hi := by
  induction t generalizing lo with
  | nil => exact h.le
  | cons r t ih =>
    have := ih h.2.2
    omega

lemma Tiles.within (h : Tiles lo t hi) : ∀ r ∈ t, lo ≤ r.key ∧ r.key + r.length ≤ hi := by
  induction t generalizing lo with
  | nil => simp
  | cons s t ih =>
    intro r hr
    have hle := h.2.2.le
    rcases List.mem_cons.mp hr with rfl | hr
    · have := h.1
      omega
    · have := ih h.2.2 r hr
      omega

lemma Tiles.key_lt (h : Tiles lo A mid) (hx : mid ≤ x) : ∀ a ∈ A, a.key < x := by
  induction A generalizing lo with
  | nil => simp
  | cons s A ih =>
    intro a ha
    have hle := h.2.2.le
    rcases List.mem_cons.mp ha with rfl | ha
    · have := h.1
      have := h.2.1
      omega
    · exact ih h.2.2 a ha

lemma Tiles.lt_key (h : Tiles mid B hi) (hx : x < mid) : ∀ b ∈ B, x < b.key := fun b hb => by
  have := (h.within b hb).1
  omega

lemma Tiles.split (h : Tiles lo t hi) (hlo : lo ≤ x) (hhi : x < hi) :
    ∃ A r B, t = A ++ r :: B ∧ r.Has x := by
  induction t generalizing lo with
  | nil =>
    have : lo = hi := h
    omega
  | cons r t ih =>
    by_cases hx : x < lo + r.length
    · exact ⟨[], r, t, rfl, by have := h.1; rw [Region.Has]; omega⟩
    · obtain ⟨A, s, B, rfl, hs⟩ := ih h.2.2 (by omega)
      exact ⟨r :: A, s, B, rfl, hs⟩

/-- Some used region has the id. -/
def Used (t : List Region) (x : ℕ) : Prop := ∃ r ∈ t, r.isUsed = true ∧ r.Has x

@[simp] lemma used_nil : ¬ Used [] x := by simp [Used]

@[simp] lemma used_cons : Used (r :: t) x ↔ r.isUsed = true ∧ r.Has x ∨ Used t x := by
  simp [Used]

@[simp] lemma used_append : Used (A ++ B) x ↔ Used A x ∨ Used B x := by
  simp [Used, or_and_right, exists_or]

lemma Tiles.used_within (h : Tiles lo t hi) (hx : Used t x) : lo ≤ x ∧ x < hi := by
  obtain ⟨r, hr, -, hhas⟩ := hx
  have := h.within r hr
  rw [Region.Has] at hhas
  omega

lemma alternates_iff : Alternates t ↔ (t.map Region.isUsed).IsChain (· ≠ ·) := by
  induction t with
  | nil => simp [Alternates]
  | cons r t ih =>
    cases t with
    | nil => simp [Alternates]
    | cons s t => rw [Alternates, ih, List.map_cons, List.map_cons, List.map_cons,
        List.isChain_cons_cons]

end

/-- A manager of the ids from `lo` on, whose regions are all accounted for. -/
structure Inv (m : Manager) (lo : ℕ) (used : Finset ℕ) : Prop extends Manages m lo used where
  pos : 1 ≤ lo
  le : lo ≤ m.max
  small : m.max + 1 < 2 ^ 64
  accounted : (m.tree.map Region.addr ++ m.freed).Perm (List.range m.allocated)

variable {m : Manager} {lo k x y : ℕ} {used : Finset ℕ} {A B S M : List Region} {r : Region}
  {F : List ℕ}

lemma succ64_eq (hx : x + 1 < 2 ^ 64) : succ64 x = x + 1 := Nat.mod_eq_of_lt hx

lemma Inv.mem_iff (h : Inv m lo used) (ht : m.tree = A ++ r :: B) (hx : r.Has x) :
    x ∈ used ↔ r.isUsed = true := by
  have htiles := h.tiles
  rw [ht] at htiles
  obtain ⟨mid, hA, rfl, -, hB⟩ := tiles_append.mp htiles
  have hAx : ¬ Used A x := fun hu => by
    have := hA.used_within hu
    have := hx.1
    omega
  have hBx : ¬ Used B x := fun hu => by
    have := hB.used_within hu
    have := hx.2
    omega
  rw [h.used_iff, ht, ← Used, used_append, used_cons]
  tauto

/-! ### Regions in the place of others -/

/-- The manager with the regions `A ++ M ++ B`, after `k` allocations and the releases `F`. -/
def Manager.splice (m : Manager) (A M B : List Region) (k : ℕ) (F : List ℕ) : Manager where
  tree := A ++ M ++ B
  max := m.max
  allocated := m.allocated + k
  freed := m.freed ++ F

/-- What stands in the place of `S` alternates if its ends are like those of `S`, or are ends of
the whole. -/
lemma isChain_splice {A S M B : List Bool} (h : (A ++ S ++ B).IsChain (· ≠ ·)) (hS : S ≠ [])
    (hM : M ≠ []) (hchain : M.IsChain (· ≠ ·)) (hhead : A = [] ∨ M.head? = S.head?)
    (hlast : B = [] ∨ M.getLast? = S.getLast?) : (A ++ M ++ B).IsChain (· ≠ ·) := by
  obtain ⟨hAS, hB, hSB⟩ := List.isChain_append.mp h
  obtain ⟨hA, -, hAS⟩ := List.isChain_append.mp hAS
  refine List.isChain_append.mpr ⟨List.isChain_append.mpr ⟨hA, hchain, ?_⟩, hB, ?_⟩
  · rcases hhead with rfl | hhead
    · simp
    · rwa [hhead]
  · rcases hlast with rfl | hlast
    · simp
    · rw [List.getLast?_append_of_ne_nil _ hM, hlast]
      rwa [List.getLast?_append_of_ne_nil _ hS] at hSB

/-- **Putting regions `M` in the place of `S`.** They cover the same ids. -/
lemma Inv.splice {used' : Finset ℕ} (h : Inv m lo used) (ht : m.tree = A ++ S ++ B)
    (hS : S ≠ []) (hM : M ≠ []) (htiles : ∀ a b, Tiles a S b → Tiles a M b)
    (hchain : (M.map Region.isUsed).IsChain (· ≠ ·))
    (hhead : A = [] ∨ (M.map Region.isUsed).head? = (S.map Region.isUsed).head?)
    (hlast : B = [] ∨ (M.map Region.isUsed).getLast? = (S.map Region.isUsed).getLast?)
    (hperm : (M.map Region.addr ++ F).Perm (S.map Region.addr ++ List.range' m.allocated k))
    (hused : ∀ x, x ∈ used' ↔ Used (A ++ M ++ B) x) : Inv (m.splice A M B k F) lo used' where
  tiles := by
    have hm := h.tiles
    rw [ht] at hm
    obtain ⟨b, hAS, hB⟩ := tiles_append.mp hm
    obtain ⟨a, hA, hS⟩ := tiles_append.mp hAS
    exact tiles_append.mpr ⟨b, tiles_append.mpr ⟨a, hA, htiles a b hS⟩, hB⟩
  alternates := by
    have hm := alternates_iff.mp h.alternates
    rw [ht, List.map_append, List.map_append] at hm
    rw [alternates_iff, Manager.splice, List.map_append, List.map_append]
    refine isChain_splice hm (by simpa) (by simpa) hchain ?_ ?_
    · exact hhead.imp_left fun hA => by rw [hA, List.map_nil]
    · exact hlast.imp_left fun hB => by rw [hB, List.map_nil]
  used_iff := hused
  pos := h.pos
  le := h.le
  small := h.small
  accounted := by
    have hm := h.accounted
    rw [List.perm_iff_count] at hm hperm ⊢
    intro a
    have h1 := hm a
    have h2 := hperm a
    have h3 := congrArg (List.count a) (List.range_add (n := m.allocated) (m := k))
    rw [← List.range'_eq_map_range] at h3
    rw [ht] at h1
    simp only [Manager.splice, List.map_append, List.count_append] at h1 h2 h3 ⊢
    omega

lemma Inv.splice_erase (h : Inv m lo used) (ht : m.tree = A ++ S ++ B) (hS : S ≠ [])
    (hM : M ≠ []) (htiles : ∀ a b, Tiles a S b → Tiles a M b)
    (hchain : (M.map Region.isUsed).IsChain (· ≠ ·))
    (hhead : A = [] ∨ (M.map Region.isUsed).head? = (S.map Region.isUsed).head?)
    (hlast : B = [] ∨ (M.map Region.isUsed).getLast? = (S.map Region.isUsed).getLast?)
    (hperm : (M.map Region.addr ++ F).Perm (S.map Region.addr ++ List.range' m.allocated k))
    (hy : Used S y) (hused : ∀ x, Used M x ↔ x ≠ y ∧ Used S x) :
    Inv (m.splice A M B k F) lo (used.erase y) := by
  refine h.splice ht hS hM htiles hchain hhead hlast hperm fun x => ?_
  have hm := h.tiles
  rw [ht] at hm
  obtain ⟨b, hAS, hB⟩ := tiles_append.mp hm
  obtain ⟨a, hA, hS⟩ := tiles_append.mp hAS
  have hy := hS.used_within hy
  have hyA : Used A x → x ≠ y := fun hx => by
    have := hA.used_within hx
    omega
  have hyB : Used B x → x ≠ y := fun hx => by
    have := hB.used_within hx
    omega
  rw [Finset.mem_erase, h.used_iff, ht, ← Used]
  simp only [used_append, hused]
  rw [and_or_left, and_or_left, and_iff_right_of_imp hyA, and_iff_right_of_imp hyB]

/-! ### The operations at a place -/

section

variable {mx al n : ℕ} {fr : List ℕ}

lemma Manager.remove_at (hA : ∀ a ∈ A, a.key < r.key) (hB : ∀ b ∈ B, r.key < b.key) :
    Manager.remove ⟨A ++ r :: B, mx, al, fr⟩ r = ⟨A ++ B, mx, al, fr⟩ := by
  rw [Manager.remove, removeNode_at hA rfl hB]

lemma Manager.insert_at (hA : ∀ a ∈ A, a.key < r.key) (hB : ∀ b ∈ B, r.key < b.key) :
    Manager.insert ⟨A ++ B, mx, al, fr⟩ r = some ⟨A ++ r :: B, mx, al, fr⟩ := by
  rw [Manager.insert, insertNode_at hA hB, Option.map_some]

lemma Manager.insertNew_at {isUsed : Bool} (hA : ∀ a ∈ A, a.key < k) (hB : ∀ b ∈ B, k < b.key) :
    Manager.insertNew ⟨A ++ B, mx, al, fr⟩ k n isUsed
      = some ⟨A ++ ⟨al, k, n, isUsed⟩ :: B, mx, al + 1, fr⟩ := by
  have hat := insertNode_at (x := (⟨al, k, n, isUsed⟩ : Region)) hA hB
  simp only [Manager.insertNew, hat, Option.map_some]

lemma Manager.addLength_at (hA : ∀ a ∈ A, a.key < r.key) (hB : ∀ b ∈ B, r.key < b.key) :
    Manager.addLength ⟨A ++ r :: B, mx, al, fr⟩ r.key n
      = ⟨A ++ { r with length := r.length + n } :: B, mx, al, fr⟩ := by
  rw [Manager.addLength, modifyNode_at _ hA rfl hB]

lemma Manager.setLength_at (hA : ∀ a ∈ A, a.key < r.key) (hB : ∀ b ∈ B, r.key < b.key) :
    Manager.setLength ⟨A ++ r :: B, mx, al, fr⟩ r.key n
      = ⟨A ++ { r with length := n } :: B, mx, al, fr⟩ := by
  rw [Manager.setLength, modifyNode_at _ hA rfl hB]

end

lemma lookupNode_head {hi : ℕ} (hA : ∀ a ∈ A, a.key < x) (hB : Tiles x B hi) :
    lookupNode Region.key (A ++ B) x = B.head? := by
  cases B with
  | nil => exact lookupNode_between hA (by simp)
  | cons u B => exact lookupNode_at hA hB.1

lemma lookupIncreasingNode_head {hi : ℕ} (hA : ∀ a ∈ A, a.key < x) (hB : Tiles x B hi) :
    lookupIncreasingNode Region.key (A ++ B) x = B.head? := by
  cases B with
  | nil => exact lookupIncreasingNode_none (by simpa using hA)
  | cons u B => exact lookupIncreasingNode_at hA hB.1.ge

lemma lookupDecreasingNode_last (hx : 0 < x) (hA : ∀ a ∈ A, a.key < x) (hB : ∀ b ∈ B, x < b.key) :
    lookupDecreasingNode Region.key (A ++ B) (x - 1) = A.getLast? := by
  have hB' : ∀ b ∈ B, x - 1 < b.key := fun b hb => by
    have := hB b hb
    omega
  induction A using List.reverseRecOn with
  | nil => exact lookupDecreasingNode_none hB'
  | append_singleton A p ih =>
    have hp := hA p (by simp)
    rw [List.append_assoc, List.singleton_append, List.getLast?_concat]
    exact lookupDecreasingNode_at (by omega) hB'

lemma key_lt_snoc {q : Region} (hA : ∀ a ∈ A, a.key < x) (hq : q.key < x) :
    ∀ a ∈ A ++ [q], a.key < x := by
  intro a ha
  rcases List.mem_append.mp ha with ha | ha
  · exact hA a ha
  · rwa [List.mem_singleton.mp ha]

/-! ### The first id of a region changes sides -/

/-- What `resource_alloc` and `resource_dealloc` do with a region that has lost its first id:
it is put back, or, if it is empty, the region behind it joins the region with key `prev`. -/
def settle (m : Manager) (prev : ℕ) (r : Region) (next : Option Region) : Option Manager :=
  if r.length - 1 ≠ 0 then
    m.insert { r with
      key := succ64 r.key
      length := r.length - 1 }
  else
    match next with
    | some u => some ((((m.free r).remove u).addLength prev u.length).free u)
    | none => some (m.free r)

lemma mem_settled {q : Region} {a hi : ℕ} {used' : Finset ℕ} (hA : Tiles lo A a)
    (hS : Tiles a S r.key) (hr0 : 0 < r.length) (hB : Tiles (r.key + r.length) B hi)
    (hkind : q.isUsed = !r.isUsed)
    (hSused : ∀ x, Used [q] x ↔ Used S x ∨ q.isUsed = true ∧ x = r.key)
    (hused : ∀ x, x ∈ used' ↔
      if q.isUsed then x = r.key ∨ (Used A x ∨ Used S x) ∨ r.isUsed = true ∧ r.Has x ∨ Used B x
      else x ≠ r.key ∧ ((Used A x ∨ Used S x) ∨ r.isUsed = true ∧ r.Has x ∨ Used B x)) (x : ℕ) :
    x ∈ used' ↔ Used A x ∨ Used [q] x ∨
      (r.isUsed = true ∧ r.key + 1 ≤ x ∧ x < r.key + r.length) ∨ Used B x := by
  rw [hused, hSused]
  by_cases hq : q.isUsed = true
  · have hr : r.isUsed = false := by simpa [hq] using hkind
    simp only [hq, hr, if_true, Bool.false_eq_true, false_and, true_and, false_or]
    rw [or_left_comm, or_assoc, or_assoc, or_comm (a := x = r.key)]
  · have hr : r.isUsed = true := by simpa [hq] using hkind
    simp only [hq, hr, Region.Has, Bool.false_eq_true, if_false, false_and, true_and, or_false]
    have hSr := hS.le
    constructor
    · rintro ⟨hne, (hx | hx) | ⟨hx, hlt⟩ | hx⟩
      · exact .inl hx
      · exact .inr (.inl hx)
      · exact .inr (.inr (.inl ⟨by omega, hlt⟩))
      · exact .inr (.inr (.inr hx))
    · rintro (hx | hx | ⟨hx, hlt⟩ | hx)
      · have := hA.used_within hx
        exact ⟨by omega, .inl (.inl hx)⟩
      · have := hS.used_within hx
        exact ⟨by omega, .inl (.inr hx)⟩
      · exact ⟨by omega, .inr (.inl ⟨by omega, hlt⟩)⟩
      · have := hB.used_within hx
        exact ⟨by omega, .inr (.inr hx)⟩

/-- **Settling.** The region `q` is what became of the regions `S` before `r` by adding the first
id of `r`. -/
lemma settle_spec {q : Region} {U : Finset ℕ} {n : Option Region} (h : Inv m lo used)
    (ht : m.tree = A ++ S ++ r :: B) (hcover : ∀ a, Tiles a S r.key → Tiles a [q] (r.key + 1))
    (hkind : q.isUsed = !r.isUsed)
    (hhead : A = [] ∨ (S.map Region.isUsed).head? = some q.isUsed)
    (hSused : ∀ x, Used [q] x ↔ Used S x ∨ q.isUsed = true ∧ x = r.key)
    (hperm : [q.addr].Perm (S.map Region.addr ++ List.range' m.allocated k))
    (hused : ∀ x, x ∈ U ↔ if q.isUsed then x = r.key ∨ x ∈ used else x ≠ r.key ∧ x ∈ used)
    (hnext : r.length = 1 → n = B.head?) :
    ∃ m', settle ⟨A ++ q :: B, m.max, m.allocated + k, m.freed⟩ q.key r n = some m' ∧
      m'.max = m.max ∧ Inv m' lo U := by
  have htiles := h.tiles
  have halt := alternates_iff.mp h.alternates
  rw [ht] at htiles halt
  obtain ⟨mid, hAS, hr, hr0, hB⟩ := tiles_append.mp htiles
  obtain ⟨a, hA, hS⟩ := tiles_append.mp hAS
  subst hr
  obtain ⟨hqk, hq0, hqe⟩ := hcover a hS
  have hqe : a + q.length = r.key + 1 := hqe
  subst hqk
  have hsmall := h.small
  have hBmax := hB.le
  have hAq : ∀ x ∈ A, x.key < q.key := hA.key_lt le_rfl
  have hqB : ∀ b ∈ B, q.key < b.key := hB.lt_key (by omega)
  have hend : ∀ a b T, Tiles a (S ++ r :: T) b →
      q.key = a ∧ a + q.length = r.key + 1 ∧ Tiles (r.key + r.length) T b := by
    intro a b T hab
    obtain ⟨mid, hmid, rfl, -, hT⟩ := tiles_append.mp hab
    obtain ⟨hqa, -, hqm⟩ := hcover a hmid
    exact ⟨hqa, hqm, hT⟩
  have hfirst : ∀ T, A = [] ∨ some q.isUsed = ((S ++ r :: T).map Region.isUsed).head? := fun T =>
    hhead.imp_right fun hhead => by rw [List.map_append, List.head?_append, hhead, Option.some_or]
  have hmem := mem_settled hA hS hr0 hB hkind hSused (fun x => by
    rw [hused, h.used_iff, ht, ← Used, used_append, used_append, used_cons])
  by_cases hl : r.length - 1 ≠ 0
  · -- the rest of the region is put back
    obtain ⟨r', hr'⟩ : ∃ r' : Region, r' = ⟨r.addr, r.key + 1, r.length - 1, r.isUsed⟩ := ⟨_, rfl⟩
    have hk : r'.key = r.key + 1 := by rw [hr']
    have hn : r'.length = r.length - 1 := by rw [hr']
    have hu : r'.isUsed = r.isUsed := by rw [hr']
    have ha : r'.addr = r.addr := by rw [hr']
    have hins : Manager.insert ⟨A ++ [q] ++ B, m.max, m.allocated + k, m.freed⟩ r'
        = some ⟨A ++ [q] ++ r' :: B, m.max, m.allocated + k, m.freed⟩ :=
      Manager.insert_at (key_lt_snoc (fun x hx => by have := hAq x hx; omega) (by omega))
        (hB.lt_key (by omega))
    refine ⟨m.splice A [q, r'] B k [], ?_, rfl, ?_⟩
    · unfold settle
      rw [if_pos hl, succ64_eq (by omega), ← hr']
      simpa [Manager.splice] using hins
    · refine h.splice (S := S ++ [r]) (by simp [ht]) (by simp) (by simp) ?_ ?_ ?_ ?_ ?_ ?_
      · intro a b hab
        obtain ⟨hqa, hqm, hb⟩ := hend a b [] hab
        have hb : r.key + r.length = b := hb
        exact ⟨hqa, hq0, by omega, by omega, by simp only [Tiles]; omega⟩
      · simp [hu, hkind]
      · simpa using hfirst []
      · simp [hu]
      · rw [List.perm_iff_count] at hperm ⊢
        intro a
        have := hperm a
        simp only [List.map_append, List.map_cons, List.map_nil, List.count_append, ha,
          List.count_cons, List.count_nil] at this ⊢
        omega
      · intro x
        rw [hmem, used_append, used_append, used_cons, used_cons]
        simp only [used_cons, used_nil, Region.Has, hk, hn, hu, or_false]
        have : r.key + 1 + (r.length - 1) = r.key + r.length := by omega
        rw [this, or_assoc, or_assoc]
  · have hr1 : r.length = 1 := by omega
    obtain rfl := hnext hr1
    cases B with
    | nil =>
      refine ⟨m.splice A [q] [] k [r.addr], ?_, rfl, ?_⟩
      · unfold settle
        rw [if_neg hl]
        simp [Manager.splice, Manager.free]
      · refine h.splice (S := S ++ [r])
          (by simp [ht]) (by simp) (by simp) ?_ (by simp) ?_ (by simp) ?_ ?_
        · intro a b hab
          obtain ⟨hqa, hqm, hb⟩ := hend a b [] hab
          have hb : r.key + r.length = b := hb
          exact ⟨hqa, hq0, by simp only [Tiles]; omega⟩
        · simpa using hfirst []
        · rw [List.perm_iff_count] at hperm ⊢
          intro a
          have := hperm a
          simp only [List.map_append, List.map_cons, List.map_nil, List.count_append,
            List.count_cons, List.count_nil] at this ⊢
          omega
        · intro x
          rw [hmem, used_append, used_append, hr1]
          have hx : ¬ (r.key + 1 ≤ x ∧ x < r.key + 1) := by omega
          simp only [hx, and_false, used_nil, or_false]
    | cons u B =>
      obtain ⟨huk, hu0, hB⟩ := hB
      have huq : u.isUsed = q.isUsed := by
        rw [List.map_append, List.map_cons, List.map_cons] at halt
        have hru := (List.isChain_cons_cons.mp (List.isChain_append.mp halt).2.1).1
        rw [hkind]
        cases hr : r.isUsed <;> simp_all
      obtain ⟨q', hq'⟩ : ∃ q' : Region, q' = ⟨q.addr, q.key, q.length + u.length, q.isUsed⟩ :=
        ⟨_, rfl⟩
      have hk : q'.key = q.key := by rw [hq']
      have hn : q'.length = q.length + u.length := by rw [hq']
      have hremove : Manager.remove ⟨A ++ [q] ++ u :: B, m.max, m.allocated + k,
        m.freed ++ [r.addr]⟩ u
          = ⟨A ++ [q] ++ B, m.max, m.allocated + k, m.freed ++ [r.addr]⟩ :=
        Manager.remove_at (key_lt_snoc (fun x hx => by have := hAq x hx; omega) (by omega))
          (hB.lt_key (by omega))
      have hadd : Manager.addLength ⟨A ++ q :: B, m.max, m.allocated + k, m.freed ++ [r.addr]⟩ q.key
          u.length = ⟨A ++ q' :: B, m.max, m.allocated + k, m.freed ++ [r.addr]⟩ := by
        rw [hq']
        exact Manager.addLength_at hAq (hB.lt_key (by omega))
      refine ⟨m.splice A [q'] B k [r.addr, u.addr], ?_, rfl, ?_⟩
      · unfold settle
        rw [if_neg hl]
        simp only [List.append_assoc, List.singleton_append] at hremove
        simp [Manager.free, hremove, hadd, Manager.splice]
      · refine h.splice (S := S ++ [r, u])
          (by simp [ht]) (by simp) (by simp) ?_ (by simp) ?_ ?_ ?_ ?_
        · intro a b hab
          obtain ⟨hqa, hqm, -, -, hb⟩ := hend a b [u] hab
          have hb : r.key + r.length + u.length = b := hb
          exact ⟨by omega, by omega, by simp only [Tiles]; omega⟩
        · simpa [hq'] using hfirst [u]
        · exact .inr (by simp [hq', huq])
        · rw [List.perm_iff_count] at hperm ⊢
          intro a
          have := hperm a
          simp only [List.map_append, List.map_cons, List.map_nil, List.count_append,
            List.count_cons, List.count_nil, hq'] at this ⊢
          omega
        · intro x
          rw [hmem, used_append, used_append, used_cons, hr1]
          have hx : ¬ (r.key + 1 ≤ x ∧ x < r.key + 1) := by omega
          have hqx : q'.Has x ↔ q.Has x ∨ u.Has x := by
            simp only [Region.Has, hk, hn]
            omega
          have hu : q'.isUsed = q.isUsed := by rw [hq']
          simp only [hx, and_false, false_or, used_cons, used_nil, or_false, huq, hqx, hu,
            and_or_left, or_assoc]

/-! ### `resource_alloc` -/

lemma takeFirst_eq (m : Manager) (prev : Option ℕ) (r : Region) : takeFirst m prev r =
    (if prev.isSome then some (m.remove r) else (m.remove r).insertNew r.key 0 true).bind fun m =>
      (settle (m.addLength (prev.getD r.key) 1) (prev.getD r.key) r
        (lookupNode Region.key (m.addLength (prev.getD r.key) 1).tree (succ64 r.key))).map
          fun m => (r.key, m) := by
  unfold takeFirst settle
  refine congrArg (Option.bind _) (funext fun m => ?_)
  simp only [Manager.free]
  split_ifs
  · rfl
  · cases lookupNode Region.key (m.addLength (prev.getD r.key) 1).tree (succ64 r.key) <;> rfl

lemma takeFirst_some {p : Region} (h : Inv m lo used) (ht : m.tree = p :: r :: B)
    (hp : p.isUsed = true) (hr : r.isUsed = false) :
    ∃ m', takeFirst m (some p.key) r = some (r.key, m') ∧ m'.max = m.max ∧
      Inv m' lo (insert r.key used) := by
  have htiles := h.tiles
  have hsmall := h.small
  rw [ht] at htiles
  obtain ⟨hpk, hp0, hrk, hr0, hB⟩ := htiles
  have hBmx := hB.le
  obtain ⟨m', hsettle, hmax, hinv⟩ := settle_spec (A := []) (S := [p]) (k := 0)
    (q := { p with length := p.length + 1 }) (U := insert r.key used)
    (n := lookupNode Region.key ({ p with length := p.length + 1 } :: B) (succ64 r.key)) h ht
    (fun a ha => by
      obtain ⟨rfl, -, ha⟩ := ha
      exact ⟨rfl, by simp, by simp only [Tiles] at ha ⊢; omega⟩)
    (by simp [hp, hr]) (.inl rfl) (fun x => by
      simp only [used_cons, used_nil, hp, Region.Has, true_and, or_false]
      omega)
    (by simp) (by simp [hp]) (fun hr1 => by
      rw [succ64_eq (by omega)]
      rw [← hrk, hr1] at hB
      exact lookupNode_head (A := [_]) (by simp; omega) hB)
  refine ⟨m', ?_, hmax, hinv⟩
  have hremove : m.remove r = ⟨p :: B, m.max, m.allocated, m.freed⟩ := by
    obtain ⟨t, mx, al, fr⟩ := m
    obtain rfl : t = p :: r :: B := ht
    exact Manager.remove_at (A := [p]) (by simp; omega) (hB.lt_key (by omega))
  have hadd : Manager.addLength ⟨p :: B, m.max, m.allocated, m.freed⟩ p.key 1
      = ⟨{ p with length := p.length + 1 } :: B, m.max, m.allocated, m.freed⟩ :=
    Manager.addLength_at (A := []) (by simp) (hB.lt_key (by omega))
  rw [takeFirst_eq, hremove, Option.getD_some]
  simpa [hadd] using hsettle

/-- The first id of an unused region at the start of the range is taken by a new region. -/
lemma takeFirst_none (h : Inv m lo used) (ht : m.tree = r :: B) (hr : r.isUsed = false) :
    ∃ m', takeFirst m none r = some (r.key, m') ∧ m'.max = m.max ∧
      Inv m' lo (insert r.key used) := by
  have htiles := h.tiles
  have hsmall := h.small
  rw [ht] at htiles
  obtain ⟨hrk, hr0, hB⟩ := htiles
  have hBmx := hB.le
  obtain ⟨m', hsettle, hmax, hinv⟩ := settle_spec (A := []) (S := []) (k := 1)
    (q := ⟨m.allocated, r.key, 1, true⟩) (U := insert r.key used)
    (n := lookupNode Region.key (⟨m.allocated, r.key, 1, true⟩ :: B) (succ64 r.key)) h ht
    (fun a ha => ⟨ha.symm, by simp, by simp only [Tiles] at ha ⊢; omega⟩) (by simp [hr]) (.inl rfl)
    (fun x => by
      simp only [used_cons, used_nil, Region.Has, true_and, or_false, false_or]
      omega)
    (by simp) (by simp) (fun hr1 => by
      rw [succ64_eq (by omega)]
      rw [← hrk, hr1] at hB
      exact lookupNode_head (A := [_]) (by simp) hB)
  refine ⟨m', ?_, hmax, hinv⟩
  have hrB : ∀ b ∈ B, r.key < b.key := hB.lt_key (by omega)
  have hremove : m.remove r = ⟨B, m.max, m.allocated, m.freed⟩ := by
    obtain ⟨t, mx, al, fr⟩ := m
    obtain rfl : t = r :: B := ht
    exact Manager.remove_at (A := []) (by simp) hrB
  have hnew : Manager.insertNew ⟨B, m.max, m.allocated, m.freed⟩ r.key 0 true
      = some ⟨⟨m.allocated, r.key, 0, true⟩ :: B, m.max, m.allocated + 1, m.freed⟩ :=
    Manager.insertNew_at (A := []) (by simp) hrB
  have hadd : Manager.addLength ⟨⟨m.allocated, r.key, 0, true⟩ :: B, m.max, m.allocated + 1,
    m.freed⟩
      r.key 1 = ⟨⟨m.allocated, r.key, 1, true⟩ :: B, m.max, m.allocated + 1, m.freed⟩ :=
    Manager.addLength_at (A := []) (r := ⟨m.allocated, r.key, 0, true⟩) (by simp) hrB
  rw [takeFirst_eq, hremove, Option.getD_none]
  simpa [hnew, hadd] using hsettle

lemma reference_alloc_of_first {hi : ℕ} (hx : lo ≤ x) (hhi : x ≤ hi) (hu : x ∉ used)
    (hbefore : ∀ y, lo ≤ y → y < x → y ∈ used) :
    reference lo hi used .alloc = (.resource x, insert x used) := by
  have hmem : x ∈ unused lo hi used := by simp [unused, hx, hhi, hu]
  have hmin : (unused lo hi used).min' ⟨x, hmem⟩ = x := by
    refine le_antisymm (Finset.min'_le _ _ hmem) (Finset.le_min' _ _ _ fun y hy => ?_)
    simp only [unused, Finset.mem_sdiff, Finset.mem_Icc] at hy
    by_contra hlt
    exact hy.2 (hbefore y hy.1.1 (by omega))
  rw [reference, dif_pos ⟨x, hmem⟩, hmin]

/-- **Allocation** answers as the reference does. -/
theorem resourceAlloc_spec (h : Inv m lo used) :
    ∃ x m', resourceAlloc m = some (x, m') ∧ m'.max = m.max ∧
      reference lo m.max used .alloc = (.resource x, (reference lo m.max used .alloc).2) ∧
      Inv m' lo (reference lo m.max used .alloc).2 := by
  have htiles := h.tiles
  have halt := h.alternates
  have hmem := h.used_iff
  have hle := h.le
  have hpos := h.pos
  have hsmall := h.small
  cases ht : m.tree with
  | nil =>
    rw [ht] at htiles
    have : lo = m.max + 1 := htiles
    omega
  | cons p B =>
    rw [ht] at htiles halt hmem
    obtain ⟨hpk, hp0, hB⟩ := htiles
    have hlookup : lookupIncreasingNode Region.key m.tree 1 = some p := by
      rw [ht]
      exact lookupIncreasingNode_at (A := []) (by simp) (by omega)
    by_cases hp : p.isUsed = true
    · cases B with
      | nil =>
        have hend : lo + p.length = m.max + 1 := hB
        have hnext : lookupNode Region.key m.tree ((p.key + p.length) % 2 ^ 64) = none := by
          rw [ht, Nat.mod_eq_of_lt (by omega)]
          exact lookupNode_between (A := [p]) (B := []) (by simp; omega) (by simp)
        have hall : ¬ (unused lo m.max used).Nonempty := by
          rintro ⟨x, hx⟩
          simp only [unused, Finset.mem_sdiff, Finset.mem_Icc, hmem] at hx
          exact hx.2 ⟨p, by simp, hp, by rw [Region.Has]; omega⟩
        refine ⟨0, m, ?_, rfl, ?_, ?_⟩
        · rw [resourceAlloc, hlookup, Option.bind_some, if_pos hp, hnext]
        · rw [reference, dif_neg hall]
        · rw [reference, dif_neg hall]
          exact h
      | cons r B =>
        obtain ⟨hrk, hr0, hB⟩ := hB
        have hr : r.isUsed = false := by simpa [hp] using halt.1
        obtain ⟨m', htake, hmax, hinv⟩ := takeFirst_some h ht hp hr
        have hnext : lookupNode Region.key m.tree ((p.key + p.length) % 2 ^ 64) = some r := by
          have := hB.le
          rw [ht, Nat.mod_eq_of_lt (by omega)]
          exact lookupNode_at (A := [p]) (by simp; omega) (by omega)
        have href : reference lo m.max used .alloc = (.resource r.key, insert r.key used) := by
          have := hB.le
          refine reference_alloc_of_first (by omega) (by omega) ?_ fun y hy hlt => ?_
          · rw [h.mem_iff (A := [p]) ht ⟨le_rfl, by omega⟩, hr]
            simp
          · rwa [h.mem_iff (A := []) ht ⟨by omega, by omega⟩]
        refine ⟨r.key, m', ?_, hmax, by rw [href], by rw [href]; exact hinv⟩
        rw [resourceAlloc, hlookup, Option.bind_some, if_pos hp, hnext]
        exact htake
    · have hp : p.isUsed = false := by simpa using hp
      obtain ⟨m', htake, hmax, hinv⟩ := takeFirst_none h ht hp
      have href : reference lo m.max used .alloc = (.resource p.key, insert p.key used) := by
        refine reference_alloc_of_first hpk.ge ?_ ?_ fun y hy hlt => by omega
        · have := hB.le
          omega
        · rw [h.mem_iff (A := []) ht ⟨le_rfl, by omega⟩, hp]
          simp
      refine ⟨p.key, m', ?_, hmax, by rw [href], by rw [href]; exact hinv⟩
      simp [resourceAlloc, hlookup, hp, htake]

end KernelModel.Resource
