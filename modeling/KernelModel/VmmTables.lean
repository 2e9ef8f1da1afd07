import KernelModel.Vmm

/-!
The tables of the kernel half.

A table is found by a path of indices, the last one first. The tables that page maps share are
told from the others by their paths, no two of which lead to the same page; and the count in the
entry of a table is the number of its entries. While an operation is under way the count may
differ from that number by what is still owed at this path.
-/

namespace KernelModel.Vmm

/-- The page that an entry of an upper table points to. -/
def pointer (e : ℕ) : Option ℕ := if e = 0 ∨ large e then none else some (address e)

/-- The page of the table at a path, from the top level of the kernel. -/
def tableAt (s : State) : List ℕ → Option ℕ
  | [] => some (s.toplevel 0)
  | x :: p => (tableAt s p).bind fun t => pointer (s.mem t x)

/-- How many entries a table has. -/
def entries (s : State) (t : ℕ) : ℕ := ((Finset.range 512).filter fun x => s.mem t x ≠ 0).card

/-- The upper half of a top-level table: its entries point to the tables `a`. -/
def UpperHalf (s : State) (a : ℕ → ℕ) (top : ℕ) : Prop :=
  ∀ i, 256 ≤ i → i < 512 → pointer (s.mem top i) = some (a i)

/-- The page maps up to `n` share the tables `a`; `owed` says how far the counts are off. -/
structure Shared (s : State) (n : ℕ) (a : ℕ → ℕ) (owed : List ℕ → ℤ) : Prop where
  aligned : ∀ m ≤ n, s.toplevel m % 2 ^ 12 = 0 ∧ s.toplevel m < 2 ^ 48
  top_used : ∀ m ≤ n, s.toplevel m ∈ s.used
  top_inj : ∀ m ≤ n, ∀ m' ≤ n, s.toplevel m = s.toplevel m' → m = m'
  top_path : ∀ m ≤ n, ∀ p, p.length ≤ 3 → tableAt s p = some (s.toplevel m) → p = []
  upper : ∀ m ≤ n, UpperHalf s a (s.toplevel m)
  bits : ∀ m ≤ n, ∀ i, 256 ≤ i → i < 512 → s.mem (s.toplevel m) i % 2 ^ 52 = a i + 7
  inj : ∀ p p' q, p.length ≤ 3 → p'.length ≤ 3 → tableAt s p = some q → tableAt s p' = some q →
    p = p'
  used : ∀ p q, p.length ≤ 3 → tableAt s p = some q → q ∈ s.used
  is_present : ∀ p t x, p.length ≤ 3 → tableAt s p = some t → s.mem t x ≠ 0 →
    present (s.mem t x) = true
  word : ∀ p t x, p.length ≤ 3 → tableAt s p = some t → s.mem t x < 2 ^ 64
  short : ∀ p t x, p.length ≤ 3 → tableAt s p = some t → 512 ≤ x → s.mem t x = 0
  counts : ∀ x p t q, p.length ≤ 2 → tableAt s p = some t → tableAt s (x :: p) = some q →
    (count (s.mem t x) : ℤ) = entries s q + owed (x :: p)

section

variable {s : State} {n t t' x y e q : ℕ} {a : ℕ → ℕ} {owed owed' : List ℕ → ℤ} {p : List ℕ}

lemma Shared.congr (h : Shared s n a owed)
    (ho : ∀ p, p.length ≤ 3 → tableAt s p ≠ none → owed p = owed' p) : Shared s n a owed' :=
  { h with
    counts := fun x p t q hp ht hq => by
      rw [← ho (x :: p) (by simp; omega) (by simp [hq])]
      exact h.counts x p t q hp ht hq }

@[simp] lemma write_mem (t' y : ℕ) : (s.write (.entry t x) e).mem t' y
    = if t' = t ∧ y = x then e else s.mem t' y := by
  unfold State.write
  by_cases ht : t' = t
  · subst ht
    by_cases hy : y = x
    · subst hy
      simp
    · simp [hy]
  · simp [ht]

@[simp] lemma write_toplevel : (s.write (.entry t x) e).toplevel = s.toplevel := rfl

@[simp] lemma write_used : (s.write (.entry t x) e).used = s.used := rfl

lemma entries_le (s : State) (t : ℕ) : entries s t ≤ 512 := by
  refine (Finset.card_filter_le _ _).trans ?_
  simp

lemma entries_congr {s' : State} (h : ∀ x, s'.mem t x = s.mem t x) :
    entries s' t = entries s t := by
  unfold entries
  simp only [h]

lemma entries_write (hx : x < 512) (t' : ℕ) :
    (entries (s.write (.entry t x) e) t' : ℤ) = entries s t' +
      if t' = t then (if e ≠ 0 then 1 else 0) - (if s.mem t x ≠ 0 then 1 else 0) else 0 := by
  by_cases ht : t' = t
  · subst ht
    have hmem : x ∈ Finset.range 512 := Finset.mem_range.mpr hx
    have hsplit : ∀ f : ℕ → ℕ, (((Finset.range 512).filter fun y => f y ≠ 0).card : ℤ)
        = ((((Finset.range 512).erase x).filter fun y => f y ≠ 0).card : ℤ)
          + if f x ≠ 0 then 1 else 0 := by
      intro f
      rw [← Finset.insert_erase hmem, Finset.filter_insert]
      split_ifs with hf
      · rw [Finset.card_insert_of_notMem (by simp), Finset.erase_insert (by simp)]
        push_cast
        ring
      · rw [Finset.erase_insert (by simp), add_zero]
    have hsame : ((Finset.range 512).erase x).filter
        (fun y => (s.write (.entry t' x) e).mem t' y ≠ 0)
          = ((Finset.range 512).erase x).filter (fun y => s.mem t' y ≠ 0) := by
      refine Finset.filter_congr fun y hy => ?_
      have hne := (Finset.mem_erase.mp hy).1
      simp [hne]
    unfold entries
    rw [hsplit, hsplit (s.mem t'), hsame]
    simp only [write_mem, and_self, if_true]
    ring
  · rw [entries_congr (s := s) fun y => by simp [ht], if_neg ht, add_zero]

lemma tableAt_congr {s' : State} (htop : s'.toplevel 0 = s.toplevel 0) {k : ℕ}
    (hp : ∀ p t x, p.length ≤ k → tableAt s p = some t →
      pointer (s'.mem t x) = pointer (s.mem t x)) :
    ∀ p : List ℕ, p.length ≤ k + 1 → tableAt s' p = tableAt s p := by
  intro p hk
  induction p with
  | nil => rw [tableAt, tableAt, htop]
  | cons x p ih =>
    rw [List.length_cons] at hk
    rw [tableAt, tableAt, ih (by omega)]
    cases ht : tableAt s p with
    | none => rfl
    | some t => exact hp p t x (by omega) ht

/-- An entry that points where the old one did leaves all paths as they are (below the lowest
tables nothing is followed). -/
lemma Shared.tableAt_write (h : Shared s n a owed) (hp : p.length ≤ 3) (ht : tableAt s p = some t)
    (hptr : p.length = 3 ∨ pointer e = pointer (s.mem t x)) (r : List ℕ) (hr : r.length ≤ 3) :
    tableAt (s.write (.entry t x) e) r = tableAt s r := by
  have htop : (s.write (.entry t x) e).toplevel 0 = s.toplevel 0 := rfl
  refine tableAt_congr htop (k := 2) (fun r t' y hr hr' => ?_) r hr
  rw [write_mem]
  split_ifs with hty
  · obtain ⟨rfl, rfl⟩ := hty
    rcases hptr with hlen | hptr
    · have := h.inj r p t' (by omega) hp hr' ht
      rw [this] at hr
      omega
    · exact hptr
  · rfl

/-- **Writing an entry** that points where the old one did. The count in it is then off by the
change, and the count of its table too. -/
lemma Shared.write (h : Shared s n a owed) (hp : p.length ≤ 3) (ht : tableAt s p = some t)
    (hx : x < 512) (he : e < 2 ^ 64) (hpres : e ≠ 0 → present e = true)
    (hptr : p.length = 3 ∨ pointer e = pointer (s.mem t x))
    (hbits : p = [] → e % 2 ^ 52 = s.mem t x % 2 ^ 52) :
    Shared (s.write (.entry t x) e) n a fun r => owed r
      + (if r = x :: p then (count e : ℤ) - count (s.mem t x) else 0)
      - (if r = p then (if e ≠ 0 then 1 else 0) - (if s.mem t x ≠ 0 then 1 else 0) else 0) := by
  have hpath := h.tableAt_write hp ht hptr
  exact
    { aligned := h.aligned
      top_used := h.top_used
      top_inj := h.top_inj
      top_path := fun m hm r hr hr' => h.top_path m hm r hr (by rwa [hpath r hr] at hr')
      upper := fun m hm i hi hi' => by
        have hup := h.upper m hm i hi hi'
        rw [write_mem]
        split_ifs with hti
        · obtain ⟨hti, rfl⟩ := hti
          have hnil := h.top_path m hm p hp (by rw [ht, ← hti]; rfl)
          rcases hptr with hlen | hptr
          · rw [hnil] at hlen
            cases hlen
          · rw [hptr, ← hti]
            exact hup
        · exact hup
      bits := fun m hm i hi hi' => by
        have hb := h.bits m hm i hi hi'
        rw [write_mem]
        split_ifs with hti
        · obtain ⟨hti, rfl⟩ := hti
          rw [hbits (h.top_path m hm p hp (by rw [ht, ← hti]; rfl)), ← hti]
          exact hb
        · exact hb
      inj := fun r r' q hr hr' hq hq' => by
        rw [hpath r hr] at hq
        rw [hpath r' hr'] at hq'
        exact h.inj r r' q hr hr' hq hq'
      used := fun r q hr hq => by
        rw [hpath r hr] at hq
        exact h.used r q hr hq
      is_present := fun r t' y hr hr' hne => by
        rw [hpath r hr] at hr'
        rw [write_mem] at hne ⊢
        split_ifs at hne ⊢ with hty
        · exact hpres hne
        · exact h.is_present r t' y hr hr' hne
      word := fun r t' y hr hr' => by
        rw [hpath r hr] at hr'
        rw [write_mem]
        split_ifs with hty
        · exact he
        · exact h.word r t' y hr hr'
      short := fun r t' y hr hr' hy => by
        rw [hpath r hr] at hr'
        rw [write_mem, if_neg (by omega)]
        exact h.short r t' y hr hr' hy
      counts := fun y r t' q hr hr' hq => by
        rw [hpath r (by omega)] at hr'
        rw [hpath (y :: r) (by simp; omega)] at hq
        have hc := h.counts y r t' q hr hr' hq
        have hpq : (y :: r = p) ↔ q = t := by
          constructor
          · intro hyr
            rw [hyr, ht] at hq
            exact (Option.some.inj hq).symm
          · rintro rfl
            exact h.inj _ _ q (by simp; omega) hp hq ht
        have hxp : (y :: r = x :: p) ↔ t' = t ∧ y = x := by
          rw [List.cons.injEq]
          constructor
          · rintro ⟨rfl, rfl⟩
            rw [hr'] at ht
            exact ⟨Option.some.inj ht, rfl⟩
          · rintro ⟨rfl, rfl⟩
            exact ⟨rfl, h.inj r p t' (by omega) hp hr' ht⟩
        rw [write_mem, entries_write hx, if_congr hpq rfl rfl, if_congr hxp rfl rfl]
        by_cases hty : t' = t ∧ y = x
        · obtain ⟨rfl, rfl⟩ := hty
          simp only [and_self, if_true]
          linarith
        · simp only [hty, if_false]
          linarith }

lemma or_seven (hq : q % 2 ^ 12 = 0) : q ||| 7 = q + 7 := by
  obtain ⟨b, rfl⟩ : ∃ b, q = 2 ^ 12 * b := ⟨q / 2 ^ 12, by omega⟩
  exact (Nat.two_pow_add_eq_or_of_lt (by norm_num) b).symm

lemma pointer_add_seven (hq : q % 2 ^ 12 = 0) (hlt : q < 2 ^ 48) : pointer (q + 7) = some q := by
  have hlarge : large (q + 7) = false := by
    rw [large, decide_eq_false_iff_not]
    omega
  have haddr : address (q + 7) = q := by
    rw [address]
    omega
  rw [pointer, if_neg (by simp [hlarge]), haddr]

/-- The state with a new table `q` at an entry. -/
def State.attach (s : State) (t x q : ℕ) : State :=
  State.write { s with
    mem := Function.update s.mem q fun _ => 0
    used := insert q s.used } (.entry t x) (q ||| 7)

lemma State.attach_mem (hq0 : q % 2 ^ 12 = 0) (t' y : ℕ) : (s.attach t x q).mem t' y
    = if t' = t ∧ y = x then q + 7 else if t' = q then 0 else s.mem t' y := by
  rw [State.attach, write_mem, or_seven hq0]
  by_cases htq : t' = q
  · simp [htq]
  · simp [htq]

lemma Shared.tableAt_attach (h : Shared s n a owed) (hp : p.length ≤ 2)
    (ht : tableAt s p = some t) (hzero : s.mem t x = 0) (hq : q ∉ s.used) (hq0 : q % 2 ^ 12 = 0)
    (hq1 : q < 2 ^ 48) (r : List ℕ) (hr : r.length ≤ 3) :
    tableAt (s.attach t x q) r = if r = x :: p then some q else tableAt s r := by
  have htq : t ≠ q := fun htq => hq (htq ▸ h.used p t (by omega) ht)
  have hmem := State.attach_mem (s := s) (t := t) (x := x) hq0
  induction r with
  | nil => rfl
  | cons y r ih =>
    rw [List.length_cons] at hr
    rw [tableAt, ih (by omega)]
    by_cases hrp : r = x :: p
    · -- nothing below the new table, and nothing was there before
      have hnone : tableAt s r = none := by rw [hrp, tableAt, ht, Option.bind_some, hzero]; rfl
      have hne : ¬ (y :: r = x :: p) := fun heq => by
        have := congrArg List.length heq
        rw [hrp] at this
        simp at this
      rw [if_pos hrp, Option.bind_some, hmem, if_neg (fun hc => htq hc.1.symm), if_pos rfl,
        if_neg hne, tableAt, hnone]
      rfl
    · rw [if_neg hrp]
      cases hr' : tableAt s r with
      | none =>
        have hne : ¬ (y :: r = x :: p) := fun heq => by
          rw [(List.cons.inj heq).2, ht] at hr'
          cases hr'
        rw [if_neg hne, tableAt, hr']
        rfl
      | some t' =>
        have hold : t' ≠ q := fun heq => hq (heq ▸ h.used r t' (by omega) hr')
        rw [Option.bind_some, hmem]
        by_cases hty : t' = t ∧ y = x
        · obtain ⟨rfl, rfl⟩ := hty
          rw [if_pos ⟨rfl, rfl⟩, h.inj r p t' (by omega) (by omega) hr' ht, if_pos rfl,
            pointer_add_seven hq0 hq1]
        · have hne : ¬ (y :: r = x :: p) := fun heq => by
            obtain ⟨rfl, rfl⟩ := List.cons.inj heq
            rw [hr'] at ht
            exact hty ⟨Option.some.inj ht, rfl⟩
          rw [if_neg hty, if_neg hold, if_neg hne, tableAt, hr', Option.bind_some]

lemma Shared.attach (h : Shared s n a owed) (hp : p.length ≤ 2) (ht : tableAt s p = some t)
    (hx : x < 512) (hzero : s.mem t x = 0) (hq : q ∉ s.used) (hq0 : q % 2 ^ 12 = 0)
    (hq1 : q < 2 ^ 48) (howed : owed (x :: p) = 0) :
    Shared (s.attach t x q) n a fun r => owed r - if r = p then 1 else 0 := by
  have htq : t ≠ q := fun htq => hq (htq ▸ h.used p t (by omega) ht)
  have hmem := State.attach_mem (s := s) (t := t) (x := x) hq0
  have hpath := h.tableAt_attach hp ht hzero hq hq0 hq1
  have hused : (s.attach t x q).used = insert q s.used := rfl
  have hold : ∀ r t', r.length ≤ 3 → tableAt s r = some t' → t' ≠ q :=
    fun r t' hr hr' htq => hq (htq ▸ h.used r t' hr hr')
  -- the paths to other tables than the new one, and what is in those
  have hback : ∀ r t', r.length ≤ 3 → tableAt (s.attach t x q) r = some t' →
      (r = x :: p ∧ t' = q) ∨ (r ≠ x :: p ∧ tableAt s r = some t' ∧ t' ≠ q) := by
    intro r t' hr hr'
    rw [hpath r hr] at hr'
    split_ifs at hr' with hrx
    · exact .inl ⟨hrx, (Option.some.inj hr').symm⟩
    · exact .inr ⟨hrx, hr', hold r t' hr hr'⟩
  have htop : ∀ m ≤ n, s.toplevel m ≠ q := fun m hm heq => hq (heq ▸ h.top_used m hm)
  exact
    { aligned := h.aligned
      top_used := fun m hm => by
        rw [hused]
        exact Finset.mem_insert_of_mem (h.top_used m hm)
      top_inj := h.top_inj
      top_path := fun m hm r hr hr' => by
        rcases hback r _ hr hr' with ⟨-, heq⟩ | ⟨-, hr', -⟩
        · exact absurd heq (htop m hm)
        · exact h.top_path m hm r hr hr'
      upper := fun m hm i hi hi' => by
        have hup := h.upper m hm i hi hi'
        have hne : ¬ (s.toplevel m = t ∧ i = x) := by
          rintro ⟨htm, rfl⟩
          rw [htm, hzero] at hup
          cases hup
        have heq : (s.attach t x q).mem (s.toplevel m) i = s.mem (s.toplevel m) i := by
          rw [hmem, if_neg hne, if_neg (htop m hm)]
        exact heq ▸ hup
      bits := fun m hm i hi hi' => by
        have hb := h.bits m hm i hi hi'
        have hne : ¬ (s.toplevel m = t ∧ i = x) := by
          rintro ⟨htm, rfl⟩
          rw [htm, hzero] at hb
          omega
        have heq : (s.attach t x q).mem (s.toplevel m) i = s.mem (s.toplevel m) i := by
          rw [hmem, if_neg hne, if_neg (htop m hm)]
        exact heq ▸ hb
      inj := fun r r' q' hr hr' hq' hq'' => by
        rcases hback r _ hr hq' with ⟨rfl, heq⟩ | ⟨-, hr₁, hne⟩ <;>
          rcases hback r' _ hr' hq'' with ⟨rfl, heq'⟩ | ⟨-, hr₂, hne'⟩
        · rfl
        · exact absurd heq hne'
        · exact absurd heq' hne
        · exact h.inj r r' q' hr hr' hr₁ hr₂
      used := fun r q' hr hq' => by
        rw [hused]
        rcases hback r _ hr hq' with ⟨-, rfl⟩ | ⟨-, hr₁, -⟩
        · exact Finset.mem_insert_self _ _
        · exact Finset.mem_insert_of_mem (h.used r q' hr hr₁)
      is_present := fun r t' y hr hr' hne => by
        rw [hmem] at hne ⊢
        rcases hback r _ hr hr' with ⟨-, rfl⟩ | ⟨-, hr₁, hne'⟩
        · rw [if_neg (fun hc => htq hc.1.symm), if_pos rfl] at hne
          exact absurd rfl hne
        · by_cases hty : t' = t ∧ y = x
          · rw [if_pos hty, present, decide_eq_true_iff]
            omega
          · rw [if_neg hty, if_neg hne'] at hne ⊢
            exact h.is_present r t' y hr hr₁ hne
      word := fun r t' y hr hr' => by
        rw [hmem]
        rcases hback r _ hr hr' with ⟨-, rfl⟩ | ⟨-, hr₁, hne'⟩
        · rw [if_neg (fun hc => htq hc.1.symm), if_pos rfl]
          norm_num
        · by_cases hty : t' = t ∧ y = x
          · rw [if_pos hty]
            omega
          · rw [if_neg hty, if_neg hne']
            exact h.word r t' y hr hr₁
      short := fun r t' y hr hr' hy => by
        rw [hmem, if_neg (by omega)]
        rcases hback r _ hr hr' with ⟨-, rfl⟩ | ⟨-, hr₁, hne'⟩
        · rw [if_pos rfl]
        · rw [if_neg hne']
          exact h.short r t' y hr hr₁ hy
      counts := fun y r t' q' hr hr' hq' => by
        rcases hback (y :: r) q' (by simp; omega) hq' with ⟨heq, rfl⟩ | ⟨hne, hq₁, hq'q⟩
        · obtain ⟨rfl, rfl⟩ := List.cons.inj heq
          rcases hback r t' (by omega) hr' with ⟨hcyc, -⟩ | ⟨-, hr₁, -⟩
          · have := congrArg List.length hcyc
            simp at this
          · rw [hr₁] at ht
            obtain rfl := Option.some.inj ht
            have hcount : count (q' + 7) = 0 := by
              rw [count]
              omega
            have hempty : entries (s.attach t' y q') q' = 0 := by
              unfold entries
              rw [Finset.card_eq_zero, Finset.filter_eq_empty_iff]
              intro z _
              rw [hmem, if_neg (fun hc => htq hc.1.symm), if_pos rfl]
              simp
            have hlen : ¬ (y :: r = r) := fun hc => by
              have := congrArg List.length hc
              simp at this
            rw [hmem, if_pos ⟨rfl, rfl⟩, hcount, hempty, howed, if_neg hlen]
            rfl
        · rcases hback r t' (by omega) hr' with ⟨hrx, -⟩ | ⟨-, hr₁, ht'q⟩
          · rw [hrx, tableAt, tableAt, ht, Option.bind_some, hzero] at hq₁
            cases hq₁
          · have hc := h.counts y r t' q' hr hr₁ hq₁
            have hty : ¬ (t' = t ∧ y = x) := by
              rintro ⟨rfl, rfl⟩
              exact hne (by rw [h.inj r p t' (by omega) (by omega) hr₁ ht])
            have hpq : (y :: r = p) ↔ q' = t := by
              constructor
              · intro hyr
                rw [hyr, ht] at hq₁
                exact (Option.some.inj hq₁).symm
              · rintro rfl
                exact h.inj _ _ q' (by simp; omega) (by omega) hq₁ ht
            have hent : (entries (s.attach t x q) q' : ℤ) =
                entries s q' + if q' = t then 1 else 0 := by
              rw [State.attach, entries_write hx, entries_congr (s := s) fun z => by
                simp [Function.update_of_ne hq'q]]
              have hseven : q + 7 ≠ 0 := by omega
              simp only [Function.update_of_ne htq, hzero, or_seven hq0, hseven, ne_eq,
                not_false_eq_true, not_true_eq_false, if_true, if_false, sub_zero]
            rw [hmem, if_neg hty, if_neg ht'q, hent, if_congr hpq rfl rfl]
            linarith }

/-- The state without the table `q` at an entry. -/
def State.detach (s : State) (t x q : ℕ) : State := (pmmDealloc s q).write (.entry t x) 0

lemma State.detach_mem (t' y : ℕ) : (s.detach t x q).mem t' y
    = if t' = t ∧ y = x then 0 else s.mem t' y := by
  rw [State.detach, write_mem]
  rfl

lemma Shared.mem_of_entries (h : Shared s n a owed) (hp : p.length ≤ 3) (hq : tableAt s p = some q)
    (hempty : entries s q = 0) (y : ℕ) : s.mem q y = 0 := by
  by_cases hy : y < 512
  · unfold entries at hempty
    rw [Finset.card_eq_zero, Finset.filter_eq_empty_iff] at hempty
    simpa using hempty (Finset.mem_range.mpr hy)
  · exact h.short p q y hp hq (by omega)

lemma Shared.tableAt_detach (h : Shared s n a owed) (hp : p.length ≤ 2)
    (ht : tableAt s p = some t) (hq : tableAt s (x :: p) = some q) (hempty : entries s q = 0)
    (r : List ℕ) (hr : r.length ≤ 3) :
    tableAt (s.detach t x q) r = if r = x :: p then none else tableAt s r := by
  induction r with
  | nil => rfl
  | cons y r ih =>
    rw [List.length_cons] at hr
    rw [tableAt, ih (by omega)]
    by_cases hrp : r = x :: p
    · -- nothing was below the table
      have hcyc : ¬ (y :: r = x :: p) := fun heq => by
        have := congrArg List.length heq
        rw [hrp] at this
        simp at this
      rw [if_pos hrp, if_neg hcyc, tableAt, hrp, hq, Option.bind_some,
        h.mem_of_entries (by simp; omega) hq hempty]
      rfl
    · rw [if_neg hrp]
      cases hr' : tableAt s r with
      | none =>
        rw [tableAt, hr']
        split_ifs <;> rfl
      | some t' =>
        rw [Option.bind_some, State.detach_mem]
        by_cases hty : t' = t ∧ y = x
        · obtain ⟨rfl, rfl⟩ := hty
          rw [if_pos ⟨rfl, rfl⟩, h.inj r p t' (by omega) (by omega) hr' ht, if_pos rfl]
          rfl
        · have hcyc : ¬ (y :: r = x :: p) := fun heq => by
            obtain ⟨rfl, rfl⟩ := List.cons.inj heq
            rw [hr'] at ht
            exact hty ⟨Option.some.inj ht, rfl⟩
          rw [if_neg hty, if_neg hcyc, tableAt, hr', Option.bind_some]

lemma Shared.detach (h : Shared s n a owed) (hp : p.length ≤ 2) (hne : p ≠ [])
    (ht : tableAt s p = some t) (hx : x < 512) (hq : tableAt s (x :: p) = some q)
    (hempty : entries s q = 0) :
    Shared (s.detach t x q) n a fun r => owed r + if r = p then 1 else 0 := by
  have hlen : (x :: p).length ≤ 3 := by simp; omega
  have hmem := State.detach_mem (s := s) (t := t) (x := x) (q := q)
  have hused : (s.detach t x q).used = s.used.erase q := rfl
  have hpath := h.tableAt_detach hp ht hq hempty
  have hback : ∀ r t', r.length ≤ 3 → tableAt (s.detach t x q) r = some t' →
      r ≠ x :: p ∧ tableAt s r = some t' ∧ t' ≠ q := by
    intro r t' hr hr'
    rw [hpath r hr] at hr'
    split_ifs at hr' with hrx
    refine ⟨hrx, hr', ?_⟩
    rintro rfl
    exact hrx (h.inj r _ t' hr hlen hr' hq)
  have htop : ∀ m ≤ n, s.toplevel m ≠ q := by
    rintro m hm rfl
    cases h.top_path m hm _ hlen hq
  have hkeep : ∀ m ≤ n, ∀ i, (s.detach t x q).mem ((s.detach t x q).toplevel m) i
      = s.mem (s.toplevel m) i := by
    intro m hm i
    have htm : s.toplevel m ≠ t := by
      rintro rfl
      exact hne (h.top_path m hm p (by omega) ht)
    exact (hmem _ i).trans (if_neg fun hc => htm hc.1)
  exact
    { aligned := h.aligned
      top_used := fun m hm => by
        rw [hused]
        exact Finset.mem_erase.mpr ⟨htop m hm, h.top_used m hm⟩
      top_inj := h.top_inj
      top_path := fun m hm r hr hr' => h.top_path m hm r hr (hback r _ hr hr').2.1
      upper := fun m hm i hi hi' => (hkeep m hm i).symm ▸ h.upper m hm i hi hi'
      bits := fun m hm i hi hi' => (hkeep m hm i).symm ▸ h.bits m hm i hi hi'
      inj := fun r r' q' hr hr' hq' hq'' =>
        h.inj r r' q' hr hr' (hback r _ hr hq').2.1 (hback r' _ hr' hq'').2.1
      used := fun r q' hr hq' => by
        obtain ⟨-, hr₁, hq'q⟩ := hback r _ hr hq'
        rw [hused]
        exact Finset.mem_erase.mpr ⟨hq'q, h.used r q' hr hr₁⟩
      is_present := fun r t' y hr hr' hnz => by
        rw [hmem] at hnz ⊢
        split_ifs at hnz ⊢ with hty
        · exact absurd rfl hnz
        · exact h.is_present r t' y hr (hback r _ hr hr').2.1 hnz
      word := fun r t' y hr hr' => by
        rw [hmem]
        split_ifs
        · norm_num
        · exact h.word r t' y hr (hback r _ hr hr').2.1
      short := fun r t' y hr hr' hy => by
        rw [hmem, if_neg (by omega)]
        exact h.short r t' y hr (hback r _ hr hr').2.1 hy
      counts := fun y r t' q' hr hr' hq' => by
        obtain ⟨-, hr₁, -⟩ := hback r t' (by omega) hr'
        obtain ⟨hyx, hq₁, hq'q⟩ := hback (y :: r) q' (by simp; omega) hq'
        have hc := h.counts y r t' q' hr hr₁ hq₁
        have hty : ¬ (t' = t ∧ y = x) := by
          rintro ⟨rfl, rfl⟩
          exact hyx (by rw [h.inj r p t' (by omega) (by omega) hr₁ ht])
        have hpq : (y :: r = p) ↔ q' = t := by
          constructor
          · intro hyr
            rw [hyr, ht] at hq₁
            exact (Option.some.inj hq₁).symm
          · rintro rfl
            exact h.inj _ _ q' (by simp; omega) (by omega) hq₁ ht
        have hold : s.mem t x ≠ 0 := by
          intro hzero
          rw [tableAt, ht, Option.bind_some, hzero] at hq
          cases hq
        have hent : (entries (s.detach t x q) q' : ℤ) = entries s q' - if q' = t then 1 else 0 := by
          have hsame : entries (pmmDealloc s q) q' = entries s q' := rfl
          have hold' : (pmmDealloc s q).mem t x ≠ 0 := hold
          rw [State.detach, entries_write hx, hsame]
          simp only [hold', ne_eq, not_false_eq_true, not_true_eq_false, if_true, if_false,
            zero_sub]
          split_ifs <;> ring
        rw [hmem, if_neg hty, hent, if_congr hpq rfl rfl]
        linarith }

end

end KernelModel.Vmm
