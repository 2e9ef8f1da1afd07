import KernelModel.ResourceSet

/-!
Runs of a resource manager.

Between its creation and its deletion a manager answers as the set of used ids does, except for
two things: `resource_is_used` does not look whether the id is in the range, and the end of a
range that ends with the last 64-bit id is not represented.
-/

namespace KernelModel.Resource

open KeyTree

variable {m : Manager} {lo k x y : ℕ} {used : Finset ℕ} {A B S M : List Region} {r : Region}

/-! ### `resource_dealloc` -/

lemma deallocFirst_eq (m : Manager) (r : Region) : deallocFirst m r r.key =
    (match lookupDecreasingNode Region.key (m.remove r).tree (r.key - 1) with
      | some prev => some ((m.remove r).addLength prev.key 1)
      | none => (m.remove r).insertNew r.key 1 false).bind fun n =>
        settle n (((lookupDecreasingNode Region.key (m.remove r).tree (r.key - 1)).map
          Region.key).getD r.key) r (lookupIncreasingNode Region.key n.tree (succ64 r.key)) := by
  unfold deallocFirst settle
  refine congrArg (Option.bind _) (funext fun n => ?_)
  refine if_congr Iff.rfl rfl ?_
  have htree : (n.free r).tree = n.tree := rfl
  cases hl : lookupIncreasingNode Region.key n.tree (succ64 r.key) with
  | none => simp only [htree, hl]
  | some next => simp only [htree, hl]

/-- The first id of a used region joins the unused region before it, or a new one. -/
lemma deallocFirst_spec (h : Inv m lo used) (ht : m.tree = A ++ r :: B) (hr : r.isUsed = true) :
    ∃ m', deallocFirst m r r.key = some m' ∧ m'.max = m.max ∧ Inv m' lo (used.erase r.key) := by
  have htiles := h.tiles
  have halt := alternates_iff.mp h.alternates
  have hsmall := h.small
  have hpos := h.pos
  rw [ht] at htiles halt
  obtain ⟨mid, hA, rfl, hr0, hB⟩ := tiles_append.mp htiles
  have hBmx := hB.le
  have hlo := hA.le
  have hAr : ∀ a ∈ A, a.key < r.key := hA.key_lt le_rfl
  have hrB : ∀ b ∈ B, r.key < b.key := hB.lt_key (by omega)
  have hremove : m.remove r = ⟨A ++ B, m.max, m.allocated, m.freed⟩ := by
    obtain ⟨t, mx, al, fr⟩ := m
    obtain rfl : t = A ++ r :: B := ht
    exact Manager.remove_at hAr hrB
  have hprev : lookupDecreasingNode Region.key (A ++ B) (r.key - 1) = A.getLast? :=
    lookupDecreasingNode_last (by omega) hAr hrB
  rw [deallocFirst_eq, hremove]
  simp only [hprev]
  rcases List.eq_nil_or_concat A with rfl | ⟨A, p, rfl⟩
  · obtain ⟨m', hsettle, hmax, hinv⟩ := settle_spec (A := []) (S := []) (k := 1)
      (q := ⟨m.allocated, r.key, 1, false⟩) (U := used.erase r.key)
      (n := lookupIncreasingNode Region.key (⟨m.allocated, r.key, 1, false⟩ :: B)
        (succ64 r.key)) h ht
      (fun a ha => ⟨ha.symm, by simp, by simp only [Tiles] at ha ⊢; omega⟩) (by simp [hr])
      (.inl rfl)
      (fun x => by simp) (by simp) (by simp) (fun hr1 => by
        rw [succ64_eq (by omega)]
        rw [hr1] at hB
        exact lookupIncreasingNode_head (A := [_]) (by simp) hB)
    refine ⟨m', ?_, hmax, hinv⟩
    have hnew : Manager.insertNew ⟨B, m.max, m.allocated, m.freed⟩ r.key 1 false
        = some ⟨⟨m.allocated, r.key, 1, false⟩ :: B, m.max, m.allocated + 1, m.freed⟩ :=
      Manager.insertNew_at (A := []) (by simp) hrB
    simpa [hnew] using hsettle
  · rw [List.concat_eq_append] at *
    obtain ⟨mid, hA, rfl, hp0, hend⟩ := tiles_append.mp hA
    have hend : p.key + p.length = r.key := hend
    have hp : p.isUsed = false := by
      rw [List.map_append] at halt
      have := (List.isChain_append.mp halt).2.2 p.isUsed (by simp) r.isUsed (by simp)
      simpa [hr] using this
    have hpB : ∀ b ∈ B, p.key < b.key := hB.lt_key (by omega)
    obtain ⟨m', hsettle, hmax, hinv⟩ := settle_spec (A := A) (S := [p]) (k := 0)
      (q := { p with length := p.length + 1 }) (U := used.erase r.key)
      (n := lookupIncreasingNode Region.key (A ++ { p with length := p.length + 1 } :: B)
        (succ64 r.key)) h (by simpa using ht)
      (fun a ha => by
        obtain ⟨rfl, -, ha⟩ := ha
        exact ⟨rfl, by simp, by simp only [Tiles] at ha ⊢; omega⟩)
      (by simp [hr, hp]) (.inr (by simp)) (fun x => by simp [hp]) (by simp) (by simp [hp])
      (fun hr1 => by
        rw [succ64_eq (by omega)]
        rw [hr1] at hB
        have hAp := key_lt_snoc (x := r.key + 1) (q := { p with length := p.length + 1 })
          (hA.key_lt (by omega)) (by simp; omega)
        simpa using lookupIncreasingNode_head hAp hB)
    refine ⟨m', ?_, hmax, hinv⟩
    have hadd : Manager.addLength ⟨A ++ p :: B, m.max, m.allocated, m.freed⟩ p.key 1
        = ⟨A ++ { p with length := p.length + 1 } :: B, m.max, m.allocated, m.freed⟩ :=
      Manager.addLength_at (hA.key_lt le_rfl) hpB
    simpa [hadd] using hsettle

/-- The last id of a used region joins the unused region behind it, or a new one. -/
lemma deallocLast_spec (h : Inv m lo used) (ht : m.tree = A ++ r :: B) (hr : r.isUsed = true)
    (hx : x + 1 = r.key + r.length) (hne : r.key < x) :
    ∃ m', deallocLast m r x = some m' ∧ m'.max = m.max ∧ Inv m' lo (used.erase x) := by
  have htiles := h.tiles
  have halt := alternates_iff.mp h.alternates
  have hsmall := h.small
  rw [ht] at htiles halt
  obtain ⟨mid, hA, rfl, hr0, hB⟩ := tiles_append.mp htiles
  have hBmx := hB.le
  have hAr : ∀ a ∈ A, a.key < r.key := hA.key_lt le_rfl
  obtain ⟨t, mx, al, fr⟩ := m
  obtain rfl : t = A ++ r :: B := ht
  simp only at hsmall hB hBmx
  have hArx := key_lt_snoc (x := x) (hA.key_lt hne.le) hne
  have hnext : lookupNode Region.key (A ++ r :: B) (succ64 x) = B.head? := by
    have hArk := key_lt_snoc (x := r.key + r.length) (hA.key_lt (by omega)) (q := r) (by omega)
    rw [succ64_eq (by omega), hx]
    simpa using lookupNode_head hArk hB
  cases B with
  | nil =>
    have hnew : Manager.insertNew ⟨A ++ [r] ++ [], mx, al, fr⟩ x 1 false
        = some ⟨A ++ [r] ++ ⟨al, x, 1, false⟩ :: [], mx, al + 1, fr⟩ :=
      Manager.insertNew_at hArx (by simp)
    have hset : Manager.setLength ⟨A ++ r :: [⟨al, x, 1, false⟩], mx, al + 1, fr⟩ r.key
      (r.length - 1)
        = ⟨A ++ { r with length := r.length - 1 } :: [⟨al, x, 1, false⟩], mx, al + 1, fr⟩ :=
      Manager.setLength_at hAr (by simpa)
    refine ⟨Manager.splice _ A [{ r with length := r.length - 1 }, ⟨al, x, 1, false⟩] [] 1 [], ?_,
      rfl,
      h.splice_erase (S := [r]) (by simp) (by simp) (by simp) ?_ (by simp [hr]) (.inr (by simp))
        (.inl rfl) ?_ ?_ ?_⟩
    · simp only [List.append_nil, List.append_assoc, List.singleton_append] at hnew
      simp only [deallocLast, hnext, List.head?_nil, hnew, Option.map_some, hset]
      simp [Manager.splice]
    · intro a b hab
      simp only [Tiles] at hab ⊢
      omega
    · simp
    · simp only [used_cons, hr, Region.Has, true_and]
      omega
    · intro z
      simp only [used_cons, used_nil, hr, Region.Has, true_and, or_false, Bool.false_eq_true,
        false_and]
      omega
  | cons u B =>
    obtain ⟨huk, hu0, hB⟩ := hB
    have hu : u.isUsed = false := by
      rw [List.map_append, List.map_cons, List.map_cons] at halt
      simpa [hr] using (List.isChain_cons_cons.mp (List.isChain_append.mp halt).2.1).1
    have hxB : ∀ b ∈ B, x < b.key := hB.lt_key (by omega)
    obtain ⟨u', hu'⟩ : ∃ u' : Region, u' = ⟨u.addr, x, u.length + 1, u.isUsed⟩ := ⟨_, rfl⟩
    have huk' : u'.key = x := by rw [hu']
    have hremove : Manager.remove ⟨A ++ [r] ++ u :: B, mx, al, fr⟩ u =
        ⟨A ++ [r] ++ B, mx, al, fr⟩ :=
      Manager.remove_at (key_lt_snoc (hA.key_lt (by omega)) (by omega)) (hB.lt_key (by omega))
    have hins : Manager.insert ⟨A ++ [r] ++ B, mx, al, fr⟩ u' =
        some ⟨A ++ [r] ++ u' :: B, mx, al, fr⟩ :=
      Manager.insert_at (by rwa [huk']) (by rwa [huk'])
    have hset : Manager.setLength ⟨A ++ r :: u' :: B, mx, al, fr⟩ r.key (r.length - 1)
        = ⟨A ++ { r with length := r.length - 1 } :: u' :: B, mx, al, fr⟩ := by
      refine Manager.setLength_at hAr fun b hb => ?_
      rcases List.mem_cons.mp hb with rfl | hb
      · omega
      · have := hxB b hb
        omega
    refine ⟨Manager.splice _ A [{ r with length := r.length - 1 }, u'] B 0 [], ?_, rfl,
      h.splice_erase (S := [r, u]) (by simp) (by simp) (by simp) ?_ (by simp [hr, hu, hu'])
        (.inr (by simp)) (.inr (by simp [hu'])) ?_ ?_ ?_⟩
    · simp only [List.append_assoc, List.singleton_append] at hremove hins
      simp only [deallocLast, hnext, List.head?_cons, hremove, ← hu', hins, Option.map_some, hset]
      simp [Manager.splice]
    · intro a b hab
      simp only [Tiles, hu'] at hab ⊢
      omega
    · simp [hu']
    · simp only [used_cons, hr, Region.Has, true_and]
      omega
    · intro z
      simp only [used_cons, used_nil, hr, hu, hu', Region.Has, true_and, or_false,
        Bool.false_eq_true, false_and]
      omega

/-- An id inside of a used region becomes an unused region between two used ones. -/
lemma deallocMiddle_spec (h : Inv m lo used) (ht : m.tree = A ++ r :: B) (hr : r.isUsed = true)
    (hx : x + 1 < r.key + r.length) (hne : r.key < x) :
    ∃ m', deallocMiddle m r x = some m' ∧ m'.max = m.max ∧ Inv m' lo (used.erase x) := by
  have htiles := h.tiles
  have hsmall := h.small
  rw [ht] at htiles
  obtain ⟨mid, hA, rfl, hr0, hB⟩ := tiles_append.mp htiles
  have hBmx := hB.le
  obtain ⟨t, mx, al, fr⟩ := m
  obtain rfl : t = A ++ r :: B := ht
  simp only at hsmall hB hBmx
  have hAx := key_lt_snoc (x := x) (hA.key_lt hne.le) hne
  obtain ⟨v, hv⟩ : ∃ v : Region, v = ⟨al, x, 1, false⟩ := ⟨_, rfl⟩
  obtain ⟨w, hw⟩ : ∃ w : Region, w = ⟨al + 1, x + 1, r.key + r.length - x - 1, true⟩ := ⟨_, rfl⟩
  have hvk : v.key = x := by rw [hv]
  have hwk : w.key = x + 1 := by rw [hw]
  have hnewv : Manager.insertNew ⟨A ++ [r] ++ B, mx, al, fr⟩ x 1 false
      = some ⟨A ++ [r] ++ v :: B, mx, al + 1, fr⟩ := by
    rw [hv]
    exact Manager.insertNew_at hAx (hB.lt_key (by omega))
  have hneww : Manager.insertNew ⟨A ++ [r] ++ [v] ++ B, mx, al + 1, fr⟩ (x + 1)
      (r.key + r.length - x - 1) true = some ⟨A ++ [r] ++ [v] ++ w :: B, mx, al + 2, fr⟩ := by
    rw [hw]
    refine Manager.insertNew_at (key_lt_snoc (fun a ha => ?_) (by omega)) (hB.lt_key (by omega))
    have := hAx a ha
    omega
  have hset : Manager.setLength ⟨A ++ r :: v :: w :: B, mx, al + 2, fr⟩ r.key (x - r.key)
      = ⟨A ++ { r with length := x - r.key } :: v :: w :: B, mx, al + 2, fr⟩ := by
    refine Manager.setLength_at (hA.key_lt le_rfl) fun b hb => ?_
    simp only [List.mem_cons] at hb
    rcases hb with rfl | rfl | hb
    · omega
    · omega
    · have := hB.lt_key (x := r.key) (by omega) b hb
      omega
  refine ⟨Manager.splice _ A [{ r with length := x - r.key }, v, w] B 2 [], ?_, rfl,
    h.splice_erase (S := [r]) (by simp) (by simp) (by simp) ?_ (by simp [hr, hv, hw])
      (.inr (by simp)) (.inr (by simp [hr, hw])) ?_ ?_ ?_⟩
  · simp only [List.append_assoc, List.cons_append, List.nil_append] at hnewv hneww
    simp only [deallocMiddle, hnewv, succ64_eq (show x + 1 < 2 ^ 64 by omega), Option.bind_some,
      hneww, Option.map_some, hset]
    simp [Manager.splice]
  · intro a b hab
    simp only [Tiles, hv, hw] at hab ⊢
    omega
  · simp [hv, hw, List.range'_succ]
  · simp only [used_cons, hr, Region.Has, true_and]
    omega
  · intro z
    simp only [used_cons, used_nil, hr, hv, hw, Region.Has, true_and, or_false,
      Bool.false_eq_true, false_and, false_or]
    omega

lemma Inv.mem_range (h : Inv m lo used) (hx : x ∈ used) : lo ≤ x ∧ x ≤ m.max := by
  have := h.tiles.used_within ((h.used_iff x).mp hx)
  omega

lemma Inv.lookup (h : Inv m lo used) (hlo : lo ≤ x) (hx : x ≤ m.max) :
    ∃ A r B, m.tree = A ++ r :: B ∧ r.Has x ∧
      lookupDecreasingNode Region.key m.tree x = some r := by
  obtain ⟨A, r, B, ht, hr⟩ := h.tiles.split hlo (by omega)
  have htiles := h.tiles
  rw [ht] at htiles
  obtain ⟨mid, hA, rfl, hr0, hB⟩ := tiles_append.mp htiles
  refine ⟨A, r, B, ht, hr, ?_⟩
  rw [ht]
  exact lookupDecreasingNode_at hr.1 (hB.lt_key hr.2)

lemma Inv.lookup_none (h : Inv m lo used) (hlo : x < lo) :
    lookupDecreasingNode Region.key m.tree x = none :=
  lookupDecreasingNode_none (h.tiles.lt_key hlo)

/-- **Deallocation** answers as the reference does. -/
theorem resourceDealloc_spec (h : Inv m lo used) (x : ℕ) :
    ∃ m', resourceDealloc m x = some (decide (x ∈ used), m') ∧ m'.max = m.max ∧
      Inv m' lo (used.erase x) := by
  have hpos := h.pos
  have hsmall := h.small
  -- an id that is not used changes nothing
  have hout : x ∉ used → resourceDealloc m x = some (false, m) →
      ∃ m', resourceDealloc m x = some (decide (x ∈ used), m') ∧ m'.max = m.max ∧
        Inv m' lo (used.erase x) := by
    intro hx heq
    refine ⟨m, ?_, rfl, ?_⟩
    · rw [heq, decide_eq_false hx]
    · rwa [Finset.erase_eq_of_notMem hx]
  by_cases hrange : x = 0 ∨ x > m.max
  · refine hout (fun hx => ?_) (by rw [resourceDealloc, if_pos hrange])
    have := h.mem_range hx
    omega
  by_cases hlo : x < lo
  · refine hout (fun hx => ?_) (by rw [resourceDealloc, if_neg hrange, h.lookup_none hlo])
    have := h.mem_range hx
    omega
  obtain ⟨A, r, B, ht, hr, hlookup⟩ := h.lookup (x := x) (by omega) (by omega)
  have hmem := h.mem_iff ht hr
  cases hu : r.isUsed with
  | false =>
    refine hout (by rw [hmem, hu]; simp) ?_
    rw [resourceDealloc, if_neg hrange, hlookup]
    simp [hu]
  | true =>
    have hx : x ∈ used := hmem.mpr hu
    have hend : r.key + r.length ≤ m.max + 1 := (h.tiles.within r (by simp [ht])).2
    have hlast : (r.key + r.length - 1) % 2 ^ 64 = r.key + r.length - 1 :=
      Nat.mod_eq_of_lt (by omega)
    have hdealloc : resourceDealloc m x =
        (if x = r.key then deallocFirst m r x
          else if x = r.key + r.length - 1 then deallocLast m r x
          else deallocMiddle m r x).map fun m => (true, m) := by
      rw [resourceDealloc, if_neg hrange, hlookup]
      simp only [hu, hlast, Bool.not_true, Bool.false_eq_true, if_false]
    obtain ⟨hge, hlt⟩ := hr
    rw [hdealloc, decide_eq_true hx]
    by_cases hfirst : x = r.key
    · obtain ⟨m', heq, hmax, hinv⟩ := deallocFirst_spec h ht hu
      rw [if_pos hfirst, hfirst, heq]
      exact ⟨m', rfl, hmax, hinv⟩
    · by_cases hl : x = r.key + r.length - 1
      · obtain ⟨m', heq, hmax, hinv⟩ := deallocLast_spec h ht hu (x := x) (by omega) (by omega)
        rw [if_neg hfirst, if_pos hl, heq]
        exact ⟨m', rfl, hmax, hinv⟩
      · obtain ⟨m', heq, hmax, hinv⟩ := deallocMiddle_spec h ht hu (x := x) (by omega) (by omega)
        rw [if_neg hfirst, if_neg hl, heq]
        exact ⟨m', rfl, hmax, hinv⟩

/-! ### `resource_is_used` -/

/-- An id behind the range is used if the last one of the range is. -/
theorem resourceIsUsed_iff (h : Inv m lo used) (x : ℕ) :
    resourceIsUsed m x = true ↔ min x m.max ∈ used := by
  have hle := h.le
  rw [resourceIsUsed]
  by_cases hlo : x < lo
  · rw [h.lookup_none hlo]
    simp only [Bool.false_eq_true, false_iff]
    intro hx
    have := h.mem_range hx
    omega
  · obtain ⟨A, r, B, ht, hr, hlookup⟩ := h.lookup (x := min x m.max) (by omega) (by omega)
    have hfind : lookupDecreasingNode Region.key m.tree x = some r := by
      have htiles := h.tiles
      rw [ht] at htiles
      obtain ⟨mid, hA, rfl, hr0, hB⟩ := tiles_append.mp htiles
      rw [ht]
      obtain ⟨hge, hlt⟩ := hr
      refine lookupDecreasingNode_at (by omega) fun b hb => ?_
      have := hB.within b hb
      have := hB.lt_key hlt b hb
      have hb0 : b.key < m.max + 1 := hB.key_lt le_rfl b hb
      omega
    rw [hfind, h.mem_iff ht hr]

/-! ### `resource_manager_delete` -/

lemma deleteLoop_eq {mx al : ℕ} {fr : List ℕ} (hmx : mx + 1 < 2 ^ 64) {t : List Region}
    {v value f : ℕ}
    (ht : Tiles v t (mx + 1)) (hv : value ≤ v) (hend : t = [] → v = value) (hf : t.length < f) :
    deleteLoop f ⟨t, mx, al, fr⟩ value = some ⟨[], mx, al, fr ++ t.map Region.addr⟩ := by
  induction t generalizing v value f fr with
  | nil =>
    obtain ⟨f, rfl⟩ : ∃ n, f = n + 1 := ⟨f - 1, by simp at hf; omega⟩
    have : v = mx + 1 := ht
    have := hend rfl
    rw [deleteLoop, if_neg (by simp only; omega)]
    simp
  | cons r t ih =>
    obtain ⟨f, rfl⟩ : ∃ n, f = n + 1 := ⟨f - 1, by simp at hf; omega⟩
    obtain ⟨rfl, hr0, ht⟩ := ht
    have hle := ht.le
    have hfind : lookupIncreasingNode Region.key (r :: t) value = some r :=
      lookupIncreasingNode_at (A := []) (by simp) hv
    have hremove : Manager.remove ⟨r :: t, mx, al, fr⟩ r = ⟨t, mx, al, fr⟩ :=
      Manager.remove_at (A := []) (by simp) (ht.lt_key (by omega))
    rw [deleteLoop, if_pos (by simp only; omega)]
    simp only [hfind, Option.bind_some, hremove, Manager.free]
    rw [Nat.mod_eq_of_lt (by omega), ih ht le_rfl (fun _ => rfl) (by simpa using hf)]
    simp

theorem resourceManagerDelete_spec (h : Inv m lo used) : ∃ n, ∀ f ≥ n, ∃ m',
    resourceManagerDelete f m = some m' ∧ m'.tree = [] ∧
      m'.freed.Perm (List.range m'.allocated) := by
  refine ⟨m.tree.length + 1, fun f hf => ?_⟩
  have hacc := h.accounted
  have hle := h.le
  have hne : m.tree = [] → lo = 1 := by
    intro ht
    have htiles := h.tiles
    rw [ht] at htiles
    have : lo = m.max + 1 := htiles
    omega
  have hdel : deleteLoop f m 1
      = some ⟨[], m.max, m.allocated, m.freed ++ m.tree.map Region.addr⟩ :=
    deleteLoop_eq h.small h.tiles h.pos hne (by omega)
  exact ⟨_, hdel, rfl, List.perm_append_comm.trans hacc⟩

/-- If the range ends with the last 64-bit id, then the loop never ends well. -/
lemma deleteLoop_last (f : ℕ) (m : Manager) (hm : m.max + 1 = 2 ^ 64) {value : ℕ}
    (hv : value < 2 ^ 64) : deleteLoop f m value = none := by
  induction f generalizing m value with
  | zero => rfl
  | succ f ih =>
    rw [deleteLoop, if_pos (by omega), Option.bind_eq_none_iff]
    intro r hr
    exact ih ((m.remove r).free r) hm (Nat.mod_lt _ (by norm_num))

/-! ### Runs -/

/-- The first id of the range that `resource_manager_create` gets. -/
def firstId (min : ℕ) : ℕ := if min = 0 then 1 else min

lemma resourceManagerCreate_inv {min max : ℕ} (hmin : firstId min < max) (hmax : max + 1 < 2 ^ 64) :
    ∃ m, resourceManagerCreate min max = some m ∧ m.max = max ∧ Inv m (firstId min) ∅ := by
  have hpos : 1 ≤ firstId min := by
    rw [firstId]
    split_ifs <;> omega
  have hnew : Manager.insertNew ⟨[], max, 0, []⟩ (firstId min) (max - firstId min + 1) false
      = some ⟨[⟨0, firstId min, max - firstId min + 1, false⟩], max, 1, []⟩ :=
    Manager.insertNew_at (A := []) (B := []) (by simp) (by simp)
  refine ⟨⟨[⟨0, firstId min, max - firstId min + 1, false⟩], max, 1, []⟩, ?_, rfl, ?_⟩
  · unfold resourceManagerCreate
    rw [← firstId, if_neg (by omega), hnew]
  · exact
      { tiles := ⟨rfl, Nat.succ_pos _, by simp only [Tiles]; omega⟩
        alternates := trivial
        used_iff := fun x => by simp
        pos := hpos
        le := hmin.le
        small := hmax
        accounted := by simp }

/-- The call asks for an id of the range, or the last id of the range is not used. -/
def Call.InRange (hi : ℕ) (used : Finset ℕ) : Call → Prop
  | .isUsed x => x ≤ hi ∨ hi ∉ used
  | _ => True

/-- Every call of a run is such, in the state before it. -/
def AllInRange (lo hi : ℕ) (used : Finset ℕ) : List Call → Prop
  | [] => True
  | c :: cs => c.InRange hi used ∧ AllInRange lo hi (reference lo hi used c).2 cs

/-- **One call**: the manager goes on as the reference does, and answers as it does exactly if
the call is in the range. -/
lemma call_spec (h : Inv m lo used) (c : Call) : ∃ a m', call m c = some (a, m') ∧ m'.max = m.max ∧
    Inv m' lo (reference lo m.max used c).2 ∧
      (a = (reference lo m.max used c).1 ↔ c.InRange m.max used) := by
  cases c with
  | alloc =>
    obtain ⟨x, m', heq, hmax, href, hinv⟩ := resourceAlloc_spec h
    refine ⟨.resource x, m', by rw [call, heq, Option.map_some], hmax, hinv, ?_⟩
    rw [href]
    simp [Call.InRange]
  | dealloc x =>
    obtain ⟨m', heq, hmax, hinv⟩ := resourceDealloc_spec h x
    refine ⟨_, m', by rw [call, heq, Option.map_some], hmax, hinv, ?_⟩
    simp [Call.InRange, reference]
  | isUsed x =>
    refine ⟨_, m, rfl, rfl, h, ?_⟩
    have hiff := resourceIsUsed_iff h x
    simp only [reference, Answer.bool.injEq, Call.InRange]
    rw [Bool.eq_iff_iff, hiff, decide_eq_true_eq]
    by_cases hx : x ≤ m.max
    · simp [hx]
    · have hout : x ∉ used := fun hmem => hx (h.mem_range hmem).2
      rw [min_eq_right (by omega)]
      simp [hx, hout]

/-- **A run**, by induction on the calls. -/
lemma calls_spec (cs : List Call) (h : Inv m lo used) : ∃ as m', calls m cs = some (as, m') ∧
    m'.max = m.max ∧ Inv m' lo (references lo m.max used cs).2 ∧
      (as = (references lo m.max used cs).1 ↔ AllInRange lo m.max used cs) := by
  induction cs generalizing m used with
  | nil => exact ⟨[], m, rfl, rfl, h, by simp [references, AllInRange]⟩
  | cons c cs ih =>
    obtain ⟨a, m₁, hcall, hmax₁, hinv₁, ha⟩ := call_spec h c
    obtain ⟨as, m₂, hcalls, hmax₂, hinv₂, has⟩ := ih hinv₁
    rw [hmax₁] at hinv₂ has hmax₂
    refine ⟨a :: as, m₂, ?_, hmax₂, hinv₂, ?_⟩
    · rw [calls, hcall, Option.bind_some, hcalls, Option.map_some]
    · simp only [references, AllInRange, List.cons.injEq, ha, has]

/-- What a manager of the ids from `min` to `max` does in a run: the answers are those of the set
of used ids, its regions are the used and the unused ids, and its deletion frees every region
once. -/
def Refines (min max : ℕ) (cs : List Call) : Prop :=
  ∃ m m', resourceManagerCreate min max = some m ∧
    calls m cs = some ((references (firstId min) max ∅ cs).1, m') ∧ m'.max = max ∧
    Manages m' (firstId min) (references (firstId min) max ∅ cs).2 ∧
    ∃ n, ∀ f ≥ n, ∃ m'', resourceManagerDelete f m' = some m'' ∧ m''.tree = [] ∧
      m''.freed.Perm (List.range m''.allocated)

/-- **The manager refines the set of used ids** exactly if its range ends before the last 64-bit
id, and the ids behind the range are asked for only while the last id of the range is unused. -/
theorem refines_iff {min max : ℕ} (hmin : firstId min < max) (hmax : max < 2 ^ 64)
    (cs : List Call) :
    Refines min max cs ↔ max + 1 < 2 ^ 64 ∧ AllInRange (firstId min) max ∅ cs := by
  constructor
  · rintro ⟨m, m', hcreate, hcalls, hm', -, n, hdelete⟩
    have hlast : max + 1 < 2 ^ 64 := by
      by_contra hlast
      obtain ⟨m'', hdel, -⟩ := hdelete n le_rfl
      rw [resourceManagerDelete, deleteLoop_last n m' (by omega) (by norm_num)] at hdel
      cases hdel
    obtain ⟨m₀, hcreate₀, hmax₀, hinv⟩ := resourceManagerCreate_inv hmin hlast
    obtain ⟨as, m₁, hcalls₁, -, -, has⟩ := calls_spec cs hinv
    obtain rfl : m₀ = m := Option.some.inj (hcreate₀.symm.trans hcreate)
    obtain ⟨rfl, -⟩ := Prod.mk.inj (Option.some.inj (hcalls₁.symm.trans hcalls))
    rw [hmax₀] at has
    exact ⟨hlast, has.mp rfl⟩
  · rintro ⟨hlast, hall⟩
    obtain ⟨m, hcreate, rfl, hinv⟩ := resourceManagerCreate_inv hmin hlast
    obtain ⟨as, m', hcalls, hmax', hinv', has⟩ := calls_spec cs hinv
    obtain rfl := has.mpr hall
    exact ⟨m, m', hcreate, hcalls, hmax', hinv'.toManages, resourceManagerDelete_spec hinv'⟩

theorem refines_three : Refines 0 3 [.alloc, .alloc, .alloc, .isUsed 2, .dealloc 2, .alloc] :=
  (refines_iff (by decide) (by norm_num) _).mpr ⟨by norm_num, by
    simp [AllInRange, Call.InRange, reference]⟩

/-- All ids from 1 to 3 are used: then the id 4 is said to be used too. -/
theorem not_refines_behind : ¬ Refines 1 3 [.alloc, .alloc, .alloc, .isUsed 4] := by
  have hrun : ((resourceManagerCreate 1 3).bind fun m =>
      (calls m [.alloc, .alloc, .alloc, .isUsed 4]).map Prod.fst) =
        some [.resource 1, .resource 2, .resource 3, .bool true] := by decide +kernel
  have href : (references (firstId 1) 3 ∅ [.alloc, .alloc, .alloc, .isUsed 4]).1 =
      [.resource 1, .resource 2, .resource 3, .bool false] := by decide +kernel
  rintro ⟨m, m', hcreate, hcalls, -⟩
  rw [hcreate, Option.bind_some, hcalls, href, Option.map_some] at hrun
  simp at hrun

end KernelModel.Resource
