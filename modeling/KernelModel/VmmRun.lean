import KernelModel.VmmHalf
import KernelModel.Runs

/-!
Runs of page maps.

The kernel's page map is made with all tables of its upper half, and the page maps of processes
get its upper entries. Whatever is then mapped and unmapped in the kernel half, all page maps
translate its addresses alike, if no slot loses its last page.
-/

namespace KernelModel.Vmm

open Runs

section

variable {s s' : State} {n x q v : ℕ} {a : ℕ → ℕ} {pick : Finset ℕ → Option ℕ}

/-! ### The kernel's page map -/

/-- The kernel's page map while the tables of its upper half are made, up to the entry `i`. -/
structure Built (s : State) (a : ℕ → ℕ) (i : ℕ) : Prop where
  aligned : s.toplevel 0 % 2 ^ 12 = 0 ∧ s.toplevel 0 < 2 ^ 48
  used : s.toplevel 0 ∈ s.used
  entry : ∀ x, s.mem (s.toplevel 0) x = if 256 ≤ x ∧ x < i then a x + 7 else 0
  table_used : ∀ x, 256 ≤ x → x < i → a x ∈ s.used
  table_aligned : ∀ x, 256 ≤ x → x < i → a x % 2 ^ 12 = 0 ∧ a x < 2 ^ 48
  table_ne : ∀ x, 256 ≤ x → x < i → a x ≠ s.toplevel 0
  table_zero : ∀ x, 256 ≤ x → x < i → ∀ y, s.mem (a x) y = 0
  inj : ∀ x y, 256 ≤ x → x < i → 256 ≤ y → y < i → a x = a y → x = y

lemma child_toplevel (hal : s.toplevel n % 2 ^ 12 = 0) (hlt : s.toplevel n < 2 ^ 48) (x : ℕ) :
    child s (.toplevel n) x = .entry (s.toplevel n) x := by
  have haddr : address (s.toplevel n) = s.toplevel n := by
    rw [address]
    omega
  simp only [child, State.read, haddr]

lemma Built.attach {i : ℕ} (hb : Built s a i) (hi : 256 ≤ i) (hfree : q ∉ s.used)
    (hal : q % 2 ^ 12 = 0) (hlt : q < 2 ^ 48) :
    Built (s.attach (s.toplevel 0) i q) (Function.update a i q) (i + 1) := by
  have hmem := State.attach_mem (s := s) (t := s.toplevel 0) (x := i) hal
  have htop : (s.attach (s.toplevel 0) i q).toplevel = s.toplevel := rfl
  have hused : (s.attach (s.toplevel 0) i q).used = insert q s.used := rfl
  have hne : s.toplevel 0 ≠ q := fun h => hfree (h ▸ hb.used)
  have htab : ∀ x, 256 ≤ x → x < i → a x ≠ q := fun x h h' heq => hfree (heq ▸ hb.table_used x h h')
  -- the new table, or one of the old ones
  have hcase : ∀ x, x < i + 1 → (x = i ∧ Function.update a i q x = q) ∨
      (x < i ∧ Function.update a i q x = a x) := by
    intro x hx
    by_cases hxi : x = i
    · subst hxi
      exact .inl ⟨rfl, by simp⟩
    · exact .inr ⟨by omega, by simp [hxi]⟩
  exact
    { aligned := hb.aligned
      used := by
        rw [hused]
        exact Finset.mem_insert_of_mem hb.used
      entry := fun x => by
        rw [htop, hmem, if_neg hne, hb.entry]
        rcases Nat.lt_trichotomy x i with hx | rfl | hx
        · simp [hx, hx.ne, show x < i + 1 by omega]
        · simp [hi]
        · simp [hx.ne', show ¬ x < i by omega, show ¬ x < i + 1 by omega]
      table_used := fun x h h' => by
        rw [hused]
        rcases hcase x h' with ⟨-, heq⟩ | ⟨hx, heq⟩
        · rw [heq]
          exact Finset.mem_insert_self _ _
        · rw [heq]
          exact Finset.mem_insert_of_mem (hb.table_used x h hx)
      table_aligned := fun x h h' => by
        rcases hcase x h' with ⟨-, heq⟩ | ⟨hx, heq⟩
        · rw [heq]
          exact ⟨hal, hlt⟩
        · rw [heq]
          exact hb.table_aligned x h hx
      table_ne := fun x h h' => by
        rw [htop]
        rcases hcase x h' with ⟨-, heq⟩ | ⟨hx, heq⟩
        · rw [heq]
          exact hne.symm
        · rw [heq]
          exact hb.table_ne x h hx
      table_zero := fun x h h' y => by
        rw [hmem]
        rcases hcase x h' with ⟨-, heq⟩ | ⟨hx, heq⟩
        · rw [heq, if_neg (fun hc => hne hc.1.symm), if_pos rfl]
        · rw [heq, if_neg (fun hc => hb.table_ne x h hx hc.1), if_neg (htab x h hx)]
          exact hb.table_zero x h hx y
      inj := fun x y hx hx' hy hy' => by
        rcases hcase x hx' with ⟨rfl, heq⟩ | ⟨hxi, heq⟩ <;>
          rcases hcase y hy' with ⟨rfl, heq'⟩ | ⟨hyi, heq'⟩
        · exact fun _ => rfl
        · rw [heq, heq']
          exact fun hc => absurd hc.symm (htab y hy hyi)
        · rw [heq, heq']
          exact fun hc => absurd hc (htab x hx hxi)
        · rw [heq, heq']
          exact hb.inj x y hx hxi hy hyi }

lemma initTables_spec (hpick : PicksFree pick) : ∀ (k i : ℕ) (s : State) (a : ℕ → ℕ), 256 ≤ i →
    Built s a i → initTables pick s (List.range' i k) = some s' → ∃ a', Built s' a' (i + k) := by
  intro k
  induction k with
  | zero =>
    intro i s a _ hb hrun
    simp only [List.range'_zero, initTables, Option.some.injEq] at hrun
    exact ⟨a, hrun ▸ hb⟩
  | succ k ih =>
    intro i s a hi hb hrun
    rw [List.range'_succ, initTables, pmmAlloc, Option.bind_eq_some_iff] at hrun
    obtain ⟨⟨q, s₁⟩, hq, hrun⟩ := hrun
    rw [Option.map_eq_some_iff] at hq
    obtain ⟨q', hq, heq⟩ := hq
    obtain ⟨rfl, rfl⟩ := Prod.mk.inj heq
    obtain ⟨hfree, hal, hlt⟩ := hpick _ _ hq
    have hchild := child_toplevel (s := { s with
        mem := Function.update s.mem q' fun _ => 0
        used := insert q' s.used }) (n := 0) hb.aligned.1 hb.aligned.2 i
    rw [hchild] at hrun
    obtain ⟨a', ha'⟩ := ih (i + 1) _ _ (by omega) (hb.attach hi hfree hal hlt) hrun
    exact ⟨a', by rwa [show i + (k + 1) = i + 1 + k by omega]⟩

/-- The tables of the upper half are all the tables there are, and they are empty. -/
lemma Built.tableAt (hb : Built s a 512) : ∀ (p : List ℕ) (t : ℕ), tableAt s p = some t →
    (p = [] ∧ t = s.toplevel 0) ∨ ∃ x, 256 ≤ x ∧ x < 512 ∧ p = [x] ∧ t = a x := by
  intro p
  induction p with
  | nil =>
    intro t ht
    exact .inl ⟨rfl, (Option.some.inj ht).symm⟩
  | cons x p ih =>
    intro t ht
    rw [Vmm.tableAt, Option.bind_eq_some_iff] at ht
    obtain ⟨u, hu, ht⟩ := ht
    rcases ih u hu with ⟨rfl, rfl⟩ | ⟨y, hy, hy', rfl, rfl⟩
    · rw [hb.entry] at ht
      split_ifs at ht with hx
      · have hal := hb.table_aligned x hx.1 hx.2
        rw [pointer_add_seven hal.1 hal.2] at ht
        exact .inr ⟨x, hx.1, hx.2, rfl, (Option.some.inj ht).symm⟩
      · cases ht
    · rw [hb.table_zero y hy hy'] at ht
      cases ht

lemma Built.shared (hb : Built s a 512) : Shared s 0 a fun _ => 0 := by
  have hup : UpperHalf s a (s.toplevel 0) := by
    intro i hi hi'
    have hal := hb.table_aligned i hi hi'
    rw [hb.entry, if_pos ⟨hi, hi'⟩, pointer_add_seven hal.1 hal.2]
  have hzero : ∀ m, m ≤ 0 → m = 0 := fun m hm => Nat.le_zero.mp hm
  -- an entry of a table is that of a table of the upper half, or none
  have hentry : ∀ p t x, Vmm.tableAt s p = some t → s.mem t x ≠ 0 →
      256 ≤ x ∧ x < 512 ∧ s.mem t x = a x + 7 := by
    intro p t x ht hne
    rcases hb.tableAt p t ht with ⟨rfl, rfl⟩ | ⟨y, hy, hy', rfl, rfl⟩
    · rw [hb.entry] at hne ⊢
      split_ifs at hne ⊢ with hx
      · exact ⟨hx.1, hx.2, rfl⟩
      · exact absurd rfl hne
    · exact absurd (hb.table_zero y hy hy' x) hne
  exact
    { aligned := fun m hm => by
        rw [hzero m hm]
        exact hb.aligned
      top_used := fun m hm => by
        rw [hzero m hm]
        exact hb.used
      top_inj := fun m hm m' hm' _ => by rw [hzero m hm, hzero m' hm']
      top_path := fun m hm p _ hp => by
        rw [hzero m hm] at hp
        rcases hb.tableAt p _ hp with ⟨rfl, -⟩ | ⟨y, hy, hy', rfl, heq⟩
        · rfl
        · exact absurd heq.symm (hb.table_ne y hy hy')
      upper := fun m hm => by
        rw [hzero m hm]
        exact hup
      bits := fun m hm i hi hi' => by
        have hal := hb.table_aligned i hi hi'
        rw [hzero m hm, hb.entry, if_pos ⟨hi, hi'⟩]
        omega
      inj := fun p p' q _ _ hp hp' => by
        rcases hb.tableAt p q hp with ⟨rfl, rfl⟩ | ⟨y, hy, hy', rfl, rfl⟩ <;>
          rcases hb.tableAt p' _ hp' with ⟨rfl, heq⟩ | ⟨z, hz, hz', rfl, heq⟩
        · rfl
        · exact absurd heq.symm (hb.table_ne z hz hz')
        · exact absurd heq (hb.table_ne y hy hy')
        · rw [hb.inj y z hy hy' hz hz' heq]
      used := fun p q _ hp => by
        rcases hb.tableAt p q hp with ⟨rfl, rfl⟩ | ⟨y, hy, hy', rfl, rfl⟩
        · exact hb.used
        · exact hb.table_used y hy hy'
      is_present := fun p t x _ ht hne => by
        obtain ⟨hx, hx', heq⟩ := hentry p t x ht hne
        have hal := hb.table_aligned x hx hx'
        rw [heq, present, decide_eq_true_iff]
        omega
      word := fun p t x _ ht => by
        by_cases hne : s.mem t x = 0
        · rw [hne]
          norm_num
        · obtain ⟨hx, hx', heq⟩ := hentry p t x ht hne
          have hal := hb.table_aligned x hx hx'
          rw [heq]
          omega
      short := fun p t x _ ht hx => by
        by_contra hne
        obtain ⟨-, hx', -⟩ := hentry p t x ht hne
        omega
      counts := fun x p t q _ ht hq => by
        rcases hb.tableAt p t ht with ⟨rfl, rfl⟩ | ⟨y, hy, hy', rfl, rfl⟩
        · rcases hb.tableAt [x] q hq with ⟨hc, -⟩ | ⟨z, hz, hz', hxz, rfl⟩
          · cases hc
          · obtain rfl := List.head_eq_of_cons_eq hxz
            have hal := hb.table_aligned x hz hz'
            have hcount : count (s.mem (s.toplevel 0) x) = 0 := by
              rw [hb.entry, if_pos ⟨hz, hz'⟩, count]
              omega
            have hent : entries s (a x) = 0 := by
              unfold entries
              rw [Finset.card_eq_zero, Finset.filter_eq_empty_iff]
              intro y _
              simp [hb.table_zero x hz hz' y]
            rw [hcount, hent]
            rfl
        · rw [Vmm.tableAt, ht, Option.bind_some, hb.table_zero y hy hy'] at hq
          cases hq }

/-- **The kernel's page map** has all tables of its upper half. -/
lemma vmmInit_spec (hpick : PicksFree pick) (hrun : vmmInit pick s = some s') :
    ∃ a, Built s' a 512 := by
  unfold vmmInit at hrun
  rw [pmmAlloc, Option.bind_eq_some_iff] at hrun
  obtain ⟨⟨q, s₁⟩, hq, hrun⟩ := hrun
  rw [Option.map_eq_some_iff] at hq
  obtain ⟨q', hq, heq⟩ := hq
  obtain ⟨rfl, rfl⟩ := Prod.mk.inj heq
  obtain ⟨hfree, hal, hlt⟩ := hpick _ _ hq
  have hb : ∀ i, i = 256 → Built (State.write { s with
      mem := Function.update s.mem q' fun _ => 0
      used := insert q' s.used } (.toplevel 0) q') (fun _ => 0) i := by
    rintro i rfl
    refine ⟨?_, ?_, fun x => ?_, ?_, ?_, ?_, ?_, ?_⟩
    · simpa [State.write] using ⟨hal, hlt⟩
    · simp [State.write]
    · rw [if_neg (by omega)]
      simp [State.write]
    all_goals intros; omega
  exact initTables_spec hpick 256 256 _ _ le_rfl (hb 256 rfl) hrun

/-! ### New page maps -/

lemma copyEntries_eq {t : ℕ} (hp : ∀ x, child s (.toplevel n) x = .entry q x)
    (ht : ∀ x, child s (.toplevel 0) x = .entry t x) (hne : q ≠ t) (is : List ℕ) :
    (copyEntries s n is).toplevel = s.toplevel ∧ (copyEntries s n is).used = s.used ∧
      ∀ t' x, (copyEntries s n is).mem t' x
        = if t' = q ∧ x ∈ is then s.mem t x else s.mem t' x := by
  induction is generalizing s with
  | nil => exact ⟨rfl, rfl, fun t' x => by rw [if_neg (by simp)]; rfl⟩
  | cons i is ih =>
    rw [copyEntries, hp, ht]
    obtain ⟨htop, hused, hmem⟩ := ih (s := s.write (.entry q i) (s.read (.entry t i))) hp ht
    refine ⟨htop, hused, fun t' x => ?_⟩
    have hsrc : (s.write (.entry q i) (s.read (.entry t i))).mem t x = s.mem t x := by
      rw [write_mem, if_neg (fun hc => hne hc.1.symm)]
    rw [hmem, hsrc, write_mem, State.read]
    by_cases hq : t' = q
    · by_cases hx : x = i
      · simp [hq, hx]
      · simp [hq, hx]
    · simp [hq]

lemma Shared.tableAt_of_used {owed : List ℕ → ℤ} (h : Shared s n a owed)
    (htop : s'.toplevel 0 = s.toplevel 0) (hmem : ∀ t ∈ s.used, ∀ x, s'.mem t x = s.mem t x)
    (p : List ℕ) (hp : p.length ≤ 3) : tableAt s' p = tableAt s p := by
  refine tableAt_congr htop (k := 2) (fun r t x hr ht => ?_) p hp
  rw [hmem t (h.used r t (by omega) ht)]

/-- **A new page map** shares the tables of the upper half. -/
lemma Shared.newPagemap (hs : Shared s n a fun _ => 0) (hfree : q ∉ s.used) (hal : q % 2 ^ 12 = 0)
    (hlt : q < 2 ^ 48) {is : List ℕ} (his : ∀ i, i ∈ is ↔ 256 ≤ i ∧ i < 512) :
    ∀ s₂, s₂ = copyEntries (State.write { s with
      mem := Function.update s.mem q fun _ => 0
      used := insert q s.used } (.toplevel (n + 1)) q) (n + 1) is →
    Shared s₂ (n + 1) a (fun _ => 0) ∧ s₂.toplevel 0 = s.toplevel 0 ∧
      ∀ t ∈ s.used, ∀ x, s₂.mem t x = s.mem t x := by
  intro s₂ hcopy
  have hal0 := hs.aligned 0 n.zero_le
  have hne : ∀ m ≤ n, s.toplevel m ≠ q := fun m hm heq => hfree (heq ▸ hs.top_used m hm)
  set s₁ : State := State.write { s with
    mem := Function.update s.mem q fun _ => 0
    used := insert q s.used } (.toplevel (n + 1)) q with hs₁
  have htop₁ : s₁.toplevel = Function.update s.toplevel (n + 1) q := rfl
  have hnew : s₁.toplevel (n + 1) = q := by simp [htop₁]
  have hold : ∀ m ≤ n, s₁.toplevel m = s.toplevel m := fun m hm => by
    simp [htop₁, show m ≠ n + 1 by omega]
  have hp : ∀ x, child s₁ (.toplevel (n + 1)) x = .entry q x := fun x => by
    rw [child_toplevel (by rwa [hnew]) (by rwa [hnew]), hnew]
  have ht : ∀ x, child s₁ (.toplevel 0) x = .entry (s.toplevel 0) x := fun x => by
    rw [child_toplevel (by rw [hold 0 n.zero_le]; exact hal0.1)
      (by rw [hold 0 n.zero_le]; exact hal0.2), hold 0 n.zero_le]
  obtain ⟨htop, hused, hmem⟩ :=
    copyEntries_eq hp ht (hne 0 n.zero_le).symm is
  rw [← hcopy] at htop hused hmem
  have hmem₁ : ∀ t x, s₁.mem t x = if t = q then 0 else s.mem t x := fun t x => by
    by_cases htq : t = q
    · simp [hs₁, State.write, htq]
    · simp [hs₁, State.write, htq]
  have hmem₂ : ∀ t ∈ s.used, ∀ x, s₂.mem t x = s.mem t x := fun t ht x => by
    have htq : t ≠ q := fun heq => hfree (heq ▸ ht)
    rw [hmem, if_neg (fun hc => htq hc.1), hmem₁, if_neg htq]
  have hcopied : ∀ i, 256 ≤ i → i < 512 → s₂.mem q i = s.mem (s.toplevel 0) i := fun i hi hi' => by
    rw [hmem, if_pos ⟨rfl, (his i).mpr ⟨hi, hi'⟩⟩, hmem₁, if_neg (hne 0 n.zero_le)]
  have hused₂ : s₂.used = insert q s.used := hused
  have hlast : s₂.toplevel (n + 1) = q := by rw [htop, hnew]
  have hkept : ∀ m ≤ n, s₂.toplevel m = s.toplevel m := fun m hm => by rw [htop, hold m hm]
  have hpath := hs.tableAt_of_used (hkept 0 n.zero_le) hmem₂
  have hcase : ∀ m ≤ n + 1, m ≤ n ∨ m = n + 1 := fun m hm => by omega
  refine ⟨?_, hkept 0 n.zero_le, hmem₂⟩
  exact
    { aligned := fun m hm => by
        rcases hcase m hm with hm | rfl
        · rw [hkept m hm]
          exact hs.aligned m hm
        · rw [hlast]
          exact ⟨hal, hlt⟩
      top_used := fun m hm => by
        rw [hused₂]
        rcases hcase m hm with hm | rfl
        · rw [hkept m hm]
          exact Finset.mem_insert_of_mem (hs.top_used m hm)
        · rw [hlast]
          exact Finset.mem_insert_self _ _
      top_inj := fun m hm m' hm' => by
        rcases hcase m hm with hm | rfl <;> rcases hcase m' hm' with hm' | rfl
        · rw [hkept m hm, hkept m' hm']
          exact hs.top_inj m hm m' hm'
        · rw [hkept m hm, hlast]
          exact fun heq => absurd heq (hne m hm)
        · rw [hkept m' hm', hlast]
          exact fun heq => absurd heq.symm (hne m' hm')
        · exact fun _ => rfl
      top_path := fun m hm p hp hpm => by
        rw [hpath p hp] at hpm
        rcases hcase m hm with hm | rfl
        · rw [hkept m hm] at hpm
          exact hs.top_path m hm p hp hpm
        · rw [hlast] at hpm
          exact absurd (hs.used p q hp hpm) hfree
      upper := fun m hm i hi hi' => by
        rcases hcase m hm with hm | rfl
        · rw [hkept m hm, hmem₂ _ (hs.top_used m hm)]
          exact hs.upper m hm i hi hi'
        · rw [hlast, hcopied i hi hi']
          exact hs.upper 0 n.zero_le i hi hi'
      bits := fun m hm i hi hi' => by
        rcases hcase m hm with hm | rfl
        · rw [hkept m hm, hmem₂ _ (hs.top_used m hm)]
          exact hs.bits m hm i hi hi'
        · rw [hlast, hcopied i hi hi']
          exact hs.bits 0 n.zero_le i hi hi'
      inj := fun p p' t hp hp' ht ht' => by
        rw [hpath p hp] at ht
        rw [hpath p' hp'] at ht'
        exact hs.inj p p' t hp hp' ht ht'
      used := fun p t hp ht => by
        rw [hpath p hp] at ht
        rw [hused₂]
        exact Finset.mem_insert_of_mem (hs.used p t hp ht)
      is_present := fun p t x hp ht => by
        rw [hpath p hp] at ht
        rw [hmem₂ t (hs.used p t hp ht)]
        exact hs.is_present p t x hp ht
      word := fun p t x hp ht => by
        rw [hpath p hp] at ht
        rw [hmem₂ t (hs.used p t hp ht)]
        exact hs.word p t x hp ht
      short := fun p t x hp ht => by
        rw [hpath p hp] at ht
        rw [hmem₂ t (hs.used p t hp ht)]
        exact hs.short p t x hp ht
      counts := fun x p t u hp ht hu => by
        have hxp : (x :: p).length ≤ 3 := by simp; omega
        rw [hpath p (by omega)] at ht
        rw [hpath (x :: p) hxp] at hu
        rw [hmem₂ t (hs.used p t (by omega) ht), entries_congr (hmem₂ u (hs.used _ u hxp hu))]
        exact hs.counts x p t u hp ht hu }

lemma pagemapInit_spec (hpick : PicksFree pick) (hs : Shared s n a fun _ => 0) {is : List ℕ}
    (his : ∀ i, i ∈ is ↔ 256 ≤ i ∧ i < 512)
    (hrun : (pmmAlloc pick s).map (fun r =>
      copyEntries (r.2.write (.toplevel (n + 1)) r.1) (n + 1) is) = some s') :
    Shared s' (n + 1) a (fun _ => 0) ∧ s'.toplevel 0 = s.toplevel 0 ∧
      ∀ t ∈ s.used, ∀ x, s'.mem t x = s.mem t x := by
  rw [pmmAlloc, Option.map_map, Option.map_eq_some_iff] at hrun
  obtain ⟨q, hq, hrun⟩ := hrun
  obtain ⟨hfree, hal, hlt⟩ := hpick _ _ hq
  exact hs.newPagemap hfree hal hlt his s' hrun.symm

lemma vmmPagemapInit_spec (hpick : PicksFree pick) (hs : Shared s n a fun _ => 0)
    (hrun : vmmPagemapInit pick s (n + 1) = some s') :
    Shared s' (n + 1) a (fun _ => 0) ∧ s'.toplevel 0 = s.toplevel 0 ∧
      ∀ t ∈ s.used, ∀ x, s'.mem t x = s.mem t x := by
  have his : ∀ i, i ∈ List.range' 256 256 ↔ 256 ≤ i ∧ i < 512 := fun i => by
    rw [List.mem_range'_1]
  exact pagemapInit_spec hpick hs his hrun

/-! ### Translation -/

lemma vmmVirtualToPhysical_congr {m m' : ℕ} {pml3 pml3' : Loc}
    (h : getChildTable s (.toplevel m) (index v 39) = some pml3)
    (h' : getChildTable s (.toplevel m') (index v 39) = some pml3')
    (haddr : address (s.read pml3) = address (s.read pml3')) :
    vmmVirtualToPhysical s m v = vmmVirtualToPhysical s m' v := by
  have hchild : ∀ x, child s pml3 x = child s pml3' x := fun x => by rw [child, child, haddr]
  have hget : ∀ x, getChildTable s pml3 x = getChildTable s pml3' x := fun x => by
    rw [getChildTable, getChildTable, hchild]
  simp only [vmmVirtualToPhysical, h, h', hchild, hget]

lemma Shared.translate {owed : List ℕ → ℤ} (hs : Shared s n a owed) {m : ℕ} (hm : m ≤ n)
    (hv : 256 ≤ index v 39) : vmmVirtualToPhysical s m v = vmmVirtualToPhysical s 0 v := by
  have hget : ∀ m ≤ n, getChildTable s (.toplevel m) (index v 39)
      = some (.entry (s.toplevel m) (index v 39)) := by
    intro m hm
    have hal := hs.aligned m hm
    have hb := hs.bits m hm _ hv (index_lt v 39)
    have hne : s.read (.entry (s.toplevel m) (index v 39)) ≠ 0 := by
      intro h0
      have h0 : s.mem (s.toplevel m) (index v 39) = 0 := h0
      rw [h0] at hb
      omega
    rw [getChildTable, child_toplevel hal.1 hal.2, if_pos hne]
  refine vmmVirtualToPhysical_congr (hget m hm) (hget 0 n.zero_le) ?_
  have h := address_of_pointer (hs.upper m hm _ hv (index_lt v 39))
  have h' := address_of_pointer (hs.upper 0 n.zero_le _ hv (index_lt v 39))
  exact h.trans h'.symm

end

/-! ### Runs -/

/-- What is called: page maps of new processes, and pages of the kernel half. -/
inductive Op
  | pagemapInit
  | mapPage (physicalAddress virtualAddress flags : ℕ)
  | unmapPage (virtualAddress : ℕ)
  deriving DecidableEq, Repr

/-- One call; the state has the number of the last page map with it. -/
def step (pick : Finset ℕ → Option ℕ) : State × ℕ → Op → Option (State × ℕ)
  | (s, n), .pagemapInit => (vmmPagemapInit pick s (n + 1)).map fun s => (s, n + 1)
  | (s, n), .mapPage phys v flags => (vmmMapPage pick s 0 phys v flags).map fun s => (s, n)
  | (s, n), .unmapPage v => some ((vmmUnmapPage s 0 v).2, n)

/-- The address is one of the kernel half; pages are mapped with words for flags, as present. -/
def Op.Called : Op → Prop
  | .pagemapInit => True
  | .mapPage _ v flags => 256 ≤ index v 39 ∧ flags < 2 ^ 64 ∧ present flags = true
  | .unmapPage v => 256 ≤ index v 39

/-- The page is not mapped in a larger page, and not the last of its slot when it is unmapped. -/
def Op.Keeps (s : State) : Op → Prop
  | .pagemapInit => True
  | .mapPage _ v flags => ¬ BelowPage s v flags
  | .unmapPage v => ¬ LastPage s v

/-- The upper entries of the kernel's page map are those of `s₀` but for their counts, and have
their tables; and all page maps translate the addresses of the kernel half as it does. -/
structure OneHalf (s₀ s : State) (n : ℕ) : Prop where
  entries : ∀ i, 256 ≤ i → i < 512 →
    s.mem (s.toplevel 0) i % 2 ^ 52 = s₀.mem (s₀.toplevel 0) i % 2 ^ 52
  tables : ∀ i, 256 ≤ i → i < 512 → address (s.mem (s.toplevel 0) i) ∈ s.used
  translate : ∀ m ≤ n, ∀ v, 256 ≤ index v 39 →
    vmmVirtualToPhysical s m v = vmmVirtualToPhysical s 0 v

section

variable {s₀ s s' : State} {n n' : ℕ} {a : ℕ → ℕ} {pick : Finset ℕ → Option ℕ} {op : Op}

lemma step_spec (hpick : PicksFree pick) (hs : Shared s n a fun _ => 0) (hcall : op.Called)
    (hkeep : op.Keeps s) (hstep : step pick (s, n) op = some (s', n')) :
    Shared s' n' a (fun _ => 0) := by
  cases op with
  | pagemapInit =>
    rw [step, Option.map_eq_some_iff] at hstep
    obtain ⟨s₁, hrun, heq⟩ := hstep
    obtain ⟨rfl, rfl⟩ := Prod.mk.inj heq
    exact (vmmPagemapInit_spec hpick hs hrun).1
  | mapPage phys v flags =>
    rw [step, Option.map_eq_some_iff] at hstep
    obtain ⟨s₁, hrun, heq⟩ := hstep
    obtain ⟨rfl, rfl⟩ := Prod.mk.inj heq
    exact (vmmMapPage_spec hpick hs hcall.1 hcall.2.1 hcall.2.2 hkeep hrun).1
  | unmapPage v =>
    rw [step, Option.some.injEq] at hstep
    obtain ⟨rfl, rfl⟩ := Prod.mk.inj hstep
    exact (vmmUnmapPage_spec hs hcall hkeep).1

lemma Shared.oneHalf {owed owed' : List ℕ → ℤ} (h₀ : Shared s₀ 0 a owed) (hs : Shared s n a owed') :
    OneHalf s₀ s n where
  entries := fun i hi hi' => by rw [hs.bits 0 n.zero_le i hi hi', h₀.bits 0 le_rfl i hi hi']
  tables := fun i hi hi' => by
    have hup := hs.upper 0 n.zero_le i hi hi'
    rw [address_of_pointer hup]
    exact hs.used [i] (a i) (by simp) hup
  translate := fun m hm v hv => hs.translate hm hv

/-- **One kernel half**, in every run in which no page is mapped in a larger one and no slot of
the kernel half loses its last page. -/
theorem oneHalf_run (hpick : PicksFree pick) (start : State) (h₀ : vmmInit pick start = some s₀)
    (ops : List Op) (hok : Along (step pick) (fun t op => op.Called ∧ op.Keeps t.1) (s₀, 0) ops)
    (hrun : run (step pick) (s₀, 0) ops = some (s, n)) : OneHalf s₀ s n := by
  obtain ⟨a, hb⟩ := vmmInit_spec hpick h₀
  have ha := hb.shared
  have hinv := run_inv (I := fun t : State × ℕ => Shared t.1 t.2 a fun _ => 0)
    (fun t op t' ht hok hstep => step_spec hpick ht hok.1 hok.2 hstep) ops (s₀, 0)
    (s, n) ha hok hrun
  exact ha.oneHalf hinv

end

/-! ### A page map that is left behind -/

/-- The next page after all that are in use. -/
def nextPage (used : Finset ℕ) : Option ℕ :=
  if (used.sup id / 2 ^ 12 + 1) * 2 ^ 12 < 2 ^ 48 then some ((used.sup id / 2 ^ 12 + 1) * 2 ^ 12)
  else none

lemma picksFree_nextPage : PicksFree nextPage := by
  intro used p hp
  unfold nextPage at hp
  split_ifs at hp with hlt
  obtain rfl := Option.some.inj hp
  refine ⟨fun hmem => ?_, by omega, hlt⟩
  have hle : (used.sup id / 2 ^ 12 + 1) * 2 ^ 12 ≤ used.sup id := Finset.le_sup (f := id) hmem
  omega

/-- The allocator finds a page as long as the pages in use end `c` bytes before `b`. -/
def FindsBelow (pick : Finset ℕ → Option ℕ) (c b : ℕ) : Prop :=
  ∀ (used : Finset ℕ) (k : ℕ), used.sup id ≤ k → k + c < b →
    ∃ p, pick used = some p ∧ (insert p used).sup id ≤ k + c

lemma nextPage_findsBelow : FindsBelow nextPage (2 ^ 12) (2 ^ 48) := by
  intro used k hk h
  refine ⟨(used.sup id / 2 ^ 12 + 1) * 2 ^ 12, ?_, ?_⟩
  · rw [nextPage, if_pos (by omega)]
  · rw [Finset.sup_insert, id]
    exact sup_le (by omega) (by omega)

lemma initTables_isSome {pick : Finset ℕ → Option ℕ} {c b : ℕ} (hpick : FindsBelow pick c b) :
    ∀ (is : List ℕ) (s : State) (k : ℕ), s.used.sup id ≤ k → k + c * is.length < b →
    ∃ s', initTables pick s is = some s' ∧ s'.used.sup id ≤ k + c * is.length := by
  intro is
  induction is with
  | nil => exact fun s k hk _ => ⟨s, rfl, hk⟩
  | cons i is ih =>
    intro s k hk h
    have hlen : k + c * (i :: is).length = k + c + c * is.length := by
      rw [List.length_cons]
      ring
    rw [hlen] at h ⊢
    obtain ⟨p, hp, hsup⟩ := hpick s.used k hk (by omega)
    obtain ⟨s', hs', hb'⟩ := ih (State.write { s with
      mem := Function.update s.mem p fun _ => 0
      used := insert p s.used } (child { s with
      mem := Function.update s.mem p fun _ => 0
      used := insert p s.used } (.toplevel 0) i) (p ||| 7)) (k + c) hsup h
    refine ⟨s', ?_, hb'⟩
    rw [initTables, pmmAlloc, hp]
    exact hs'

lemma vmmInit_isSome {pick : Finset ℕ → Option ℕ} {c b k : ℕ} {s : State}
    (hpick : FindsBelow pick c b) (hk : s.used.sup id ≤ k) (h : k + c + c * 256 < b) :
    ∃ s', vmmInit pick s = some s' ∧ s'.used.sup id ≤ k + c + c * 256 := by
  obtain ⟨p, hp, hsup⟩ := hpick s.used k hk (by omega)
  have hinit : vmmInit pick s = initTables pick (State.write { s with
      mem := Function.update s.mem p fun _ => 0
      used := insert p s.used } (.toplevel 0) p) (List.range' 256 256) := by
    rw [vmmInit, pmmAlloc, hp, Option.map_some, Option.bind_some]
  have htables := initTables_isSome hpick (List.range' 256 256) (State.write { s with
      mem := Function.update s.mem p fun _ => 0
      used := insert p s.used } (.toplevel 0) p) (k + c) hsup
  rw [List.length_range'] at htables
  rw [hinit]
  exact htables h

lemma vmmPagemapInit_isSome {pick : Finset ℕ → Option ℕ} {c b k m : ℕ} {s : State}
    (hpick : FindsBelow pick c b) (hk : s.used.sup id ≤ k) (h : k + c < b) :
    ∃ s', vmmPagemapInit pick s m = some s' := by
  obtain ⟨p, hp, -⟩ := hpick s.used k hk h
  rw [vmmPagemapInit, pmmAlloc, hp, Option.map_some, Option.map_some]
  exact ⟨_, rfl⟩

/-- Memory before the kernel has a page map; the first page is not given out. -/
def blank : State := ⟨fun _ _ => 0, {0}, fun _ => 0⟩

section

variable {s : State} {n v flags : ℕ} {a : ℕ → ℕ}

lemma vmmMapPage_extraLarge (pick : Finset ℕ → Option ℕ) (phys : ℕ) (hs : Shared s n a fun _ => 0)
    (hv : 256 ≤ index v 39)
    (hflags : extraLarge flags = true)
    (hphys : phys % 2 ^ 30 = 0) (hal : v % 2 ^ 30 = 0)
    (hzero : s.mem (a (index v 39)) (index v 30) = 0) :
    ∃ s', vmmMapPage pick s 0 phys v flags = some s' ∧ s'.used = s.used ∧
      ∀ x, s'.mem (a (index v 39)) x
        = if x = index v 30 then pageEntry phys flags ||| 2 ^ 7 else s.mem (a (index v 39)) x := by
  obtain ⟨halloc, h₃⟩ := allocChildTable_upper pick hs hv (index_lt v 39)
  obtain ⟨hs₁, h₁, hused, -, hmem⟩ := increaseLength_spec hs h₃ (by simp) (by simp)
  have hinc : increaseLengthIfEntryEmpty s (.entry (s.toplevel 0) (index v 39)) (index v 30)
      = increaseLength s (.entry (s.toplevel 0) (index v 39)) := by
    simp only [increaseLengthIfEntryEmpty, h₃.child hs, State.read, hzero, if_true]
  have hpres : present (s.read (.entry (a (index v 39)) (index v 30))) = false := by
    rw [State.read, hzero]
    rfl
  refine ⟨(increaseLength s (.entry (s.toplevel 0) (index v 39))).write
    (.entry (a (index v 39)) (index v 30)) (pageEntry phys flags ||| 2 ^ 7), ?_, hused, fun x => ?_⟩
  · simp only [vmmMapPage, halloc, Option.bind_some, hflags, if_true, hphys, hal, ne_eq,
      not_true_eq_false, or_self, if_false, placeEntry, h₃.child hs, hpres, Bool.false_eq_true,
      hinc,
      h₁.child hs₁]
  · rw [write_mem, hmem]
    simp only [true_and]

lemma vmmUnmapPage_extraLarge (hs : Shared s n a fun _ => 0) (hv : 256 ≤ index v 39)
    (hal : v % 2 ^ 30 = 0) (hlarge : large (s.mem (a (index v 39)) (index v 30)) = true) :
    (vmmUnmapPage s 0 v).2 = (decreaseLength (s.write (.entry (a (index v 39)) (index v 30)) 0)
      (.entry (s.toplevel 0) (index v 39))).2 := by
  obtain ⟨-, h₃⟩ := allocChildTable_upper (fun _ => none) hs hv (index_lt v 39)
  have hal' : v % 2 ^ 12 = 0 := by omega
  simp only [vmmUnmapPage, hal', ne_eq, not_true_eq_false, if_false, unmapPage,
    getChildTable_upper hs hv, h₃.child hs, State.read, hlarge, if_true, hal]

lemma not_lastPage {t : ℕ} (ht : tableAt s [index v 39] = some t) (hlt : 1 < entries s t) :
    ¬ LastPage s v := by
  rintro ⟨p, hp, ⟨hlen, -⟩, hall⟩
  have hmem : [index v 39] ∈ p.tail.tails := by
    rcases (mem_tails_path v p).mp hp with rfl | rfl | rfl | rfl | rfl
    · simp [path, List.tails]
    · simp [List.tails]
    · simp [List.tails]
    · simp at hlen
    · simp at hlen
  have := hall _ hmem (by simp) t ht
  omega

lemma not_belowPage (hflags : extraLarge flags = true) : ¬ BelowPage s v flags := by
  rintro ⟨p, -, hlen, hlt, -⟩
  rw [depth, if_pos hflags] at hlt
  omega

end

/-- An address of the kernel half, the first of its slot. -/
def slot : ℕ := 0xffff960000000000

/-- The flags of an extra large page. -/
def extra : ℕ := 2 ^ 50 + 3

lemma index_slot : index slot 39 = 300 ∧ index slot 30 = 0 ∧ index (slot + 2 ^ 30) 39 = 300 ∧
    index (slot + 2 ^ 30) 30 = 1 ∧ slot % 2 ^ 30 = 0 ∧ (slot + 2 ^ 30) % 2 ^ 30 = 0 := by
  decide

/-- The kernel's page map, that of a process, and an extra large page in an empty slot. -/
lemma exists_mapped : ∃ s₀ s₁ s₂ a, vmmInit nextPage blank = some s₀ ∧ Built s₀ a 512 ∧
    step nextPage (s₀, 0) .pagemapInit = some (s₁, 1) ∧ Shared s₁ 1 a (fun _ => 0) ∧
    step nextPage (s₁, 1) (.mapPage 0 slot extra) = some (s₂, 1) ∧ Shared s₂ 1 a (fun _ => 0) ∧
    ∀ x, s₂.mem (a 300) x = if x = 0 then pageEntry 0 extra ||| 2 ^ 7 else 0 := by
  obtain ⟨h39, h30, -, -, hal, -⟩ := index_slot
  obtain ⟨s₀, hinit, hsup⟩ := vmmInit_isSome (s := blank) (k := 0) nextPage_findsBelow
    (by simp [blank]) (by norm_num)
  obtain ⟨a, hb⟩ := vmmInit_spec picksFree_nextPage hinit
  obtain ⟨s₁, hs₁⟩ := vmmPagemapInit_isSome (m := 1) nextPage_findsBelow hsup (by norm_num)
  obtain ⟨hshared₁, -, hmem₁⟩ := vmmPagemapInit_spec picksFree_nextPage hb.shared hs₁
  have hzero : ∀ x, s₁.mem (a 300) x = 0 := fun x => by
    rw [hmem₁ _ (hb.table_used 300 (by norm_num) (by norm_num)),
      hb.table_zero 300 (by norm_num) (by norm_num)]
  have hextra : extraLarge extra = true := by decide
  obtain ⟨s₂, hs₂, -, hmem₂⟩ := vmmMapPage_extraLarge nextPage 0 (v := slot) hshared₁
    (by rw [h39]; norm_num) hextra (by norm_num) hal (by rw [h39, hzero])
  have hstep₂ : step nextPage (s₁, 1) (.mapPage 0 slot extra) = some (s₂, 1) := by
    rw [step, hs₂]
    rfl
  refine ⟨s₀, s₁, s₂, a, hinit, hb, ?_, hshared₁, hstep₂, ?_, fun x => ?_⟩
  · rw [step, hs₁]
    rfl
  · have hcall : (Op.mapPage 0 slot extra).Called :=
      ⟨by rw [h39]; norm_num, by norm_num [extra], rfl⟩
    have hkeep : (Op.mapPage 0 slot extra).Keeps s₁ := not_belowPage (by decide)
    exact step_spec picksFree_nextPage hshared₁ hcall hkeep hstep₂
  · rw [h39, h30] at hmem₂
    rw [hmem₂, hzero]

theorem oneHalf_run_slot : ∃ s₀ s, vmmInit nextPage blank = some s₀ ∧
    run (step nextPage) (s₀, 0) [.pagemapInit, .mapPage 0 slot extra,
      .mapPage (2 ^ 30) (slot + 2 ^ 30) extra, .unmapPage slot] = some (s, 1) ∧ OneHalf s₀ s 1 := by
  obtain ⟨h39, h30, h39', h30', -, hal⟩ := index_slot
  obtain ⟨s₀, s₁, s₂, a, hinit, hb, hstep₁, hs₁, hstep₂, hs₂, hmem₂⟩ := exists_mapped
  have hextra : extraLarge extra = true := by decide
  obtain ⟨s₃, hmap₃, -, hmem₃⟩ := vmmMapPage_extraLarge nextPage (2 ^ 30)
    (v := slot + 2 ^ 30) hs₂ (by rw [h39']; norm_num) hextra (by norm_num) hal
    (by rw [h39', h30', hmem₂, if_neg (by norm_num)])
  have hcall : ∀ phys v, index v 39 = 300 → (Op.mapPage phys v extra).Called := fun phys v hv =>
    ⟨by rw [hv]; norm_num, by norm_num [extra], rfl⟩
  have hbelow : ∀ s phys v, (Op.mapPage phys v extra).Keeps s := fun s phys v =>
    not_belowPage (by decide)
  have hstep₃ : step nextPage (s₂, 1) (.mapPage (2 ^ 30) (slot + 2 ^ 30) extra) = some (s₃, 1) := by
    rw [step, hmap₃]
    rfl
  have hs₃ := step_spec picksFree_nextPage hs₂ (hcall _ _ h39') (hbelow _ _ _) hstep₃
  rw [h39', h30'] at hmem₃
  -- the slot has two pages
  have htwo : 1 < entries s₃ (a 300) := by
    refine Finset.one_lt_card.mpr ⟨0, ?_, 1, ?_, by norm_num⟩
    · rw [Finset.mem_filter, hmem₃, if_neg (by norm_num), hmem₂, if_pos rfl]
      exact ⟨by simp, by decide⟩
    · rw [Finset.mem_filter, hmem₃, if_pos rfl]
      exact ⟨by simp, by decide⟩
  have hlast : ¬ LastPage s₃ slot := not_lastPage (t := a 300)
    (by rw [h39]; exact hs₃.upper 0 (by norm_num) 300 (by norm_num) (by norm_num)) htwo
  have hok : Along (step nextPage) (fun t op => op.Called ∧ op.Keeps t.1) (s₀, 0)
      [.pagemapInit, .mapPage 0 slot extra, .mapPage (2 ^ 30) (slot + 2 ^ 30) extra,
        .unmapPage slot] := by
    refine along_cons ⟨trivial, trivial⟩ hstep₁ ?_
    refine along_cons ⟨hcall _ _ h39, hbelow _ _ _⟩ hstep₂ ?_
    refine along_cons ⟨hcall _ _ h39', hbelow _ _ _⟩ hstep₃ ?_
    exact along_cons ⟨by rw [Op.Called, h39]; norm_num, hlast⟩ rfl trivial
  have hrun : run (step nextPage) (s₀, 0) [.pagemapInit, .mapPage 0 slot extra,
      .mapPage (2 ^ 30) (slot + 2 ^ 30) extra, .unmapPage slot]
        = some ((vmmUnmapPage s₃ 0 slot).2, 1) := by
    rw [run_cons, hstep₁, Option.bind_some, run_cons, hstep₂, Option.bind_some, run_cons, hstep₃,
      Option.bind_some]
    rfl
  exact ⟨s₀, _, hinit, hrun, oneHalf_run picksFree_nextPage blank hinit _ hok hrun⟩

/-- A slot that loses its last page loses its table, and the page map of a process that was made
before keeps pointing to it. -/
theorem not_oneHalf_last : ∃ s₀ s, PicksFree nextPage ∧ vmmInit nextPage blank = some s₀ ∧
    run (step nextPage) (s₀, 0) [.pagemapInit, .mapPage 0 slot extra, .unmapPage slot]
      = some (s, 1) ∧
    s.mem (s.toplevel 0) 300 = 0 ∧ ¬ OneHalf s₀ s 1 := by
  obtain ⟨h39, h30, -, -, hal, -⟩ := index_slot
  obtain ⟨s₀, s₁, s₂, a, hinit, hb, hstep₁, hs₁, hstep₂, hs₂, hmem₂⟩ := exists_mapped
  have hrun : run (step nextPage) (s₀, 0) [.pagemapInit, .mapPage 0 slot extra, .unmapPage slot]
        = some ((vmmUnmapPage s₂ 0 slot).2, 1) := by
    rw [run_cons, hstep₁, Option.bind_some, run_cons, hstep₂, Option.bind_some]
    rfl
  have hpage : s₂.mem (a 300) 0 = pageEntry 0 extra ||| 2 ^ 7 := by rw [hmem₂, if_pos rfl]
  have hlarge : large (s₂.mem (a 300) 0) = true := by
    rw [hpage]
    decide
  have hne : s₂.mem (a 300) 0 ≠ 0 := by
    rw [hpage]
    decide
  have hup := hs₂.upper 0 (by norm_num) 300 (by norm_num) (by norm_num)
  have hunmap := vmmUnmapPage_extraLarge hs₂ (v := slot) (by rw [h39]; norm_num) hal
    (by rw [h39, h30]; exact hlarge)
  rw [h39, h30] at hunmap
  obtain ⟨hs', hpath, -⟩ := hs₂.clear_leaf (r := [300]) (by simp) (by simp) hup (x := 0)
    (by norm_num) hne (.inr hlarge)
  have hnone : entries (s₂.write (.entry (a 300) 0) 0) (a 300) = 0 := by
    unfold entries
    rw [Finset.card_eq_zero, Finset.filter_eq_empty_iff]
    intro x _
    rw [write_mem, hmem₂]
    by_cases hx : x = 0
    · simp [hx]
    · simp [hx]
  have htab : tableAt (s₂.write (.entry (a 300) 0) 0) [300] = some (a 300) := by
    rw [hpath _ (by simp)]
    exact hup
  have hdec : decreaseLength (s₂.write (.entry (a 300) 0) 0) (.entry (s₂.toplevel 0) 300)
      = (true, (s₂.write (.entry (a 300) 0) 0).detach (s₂.toplevel 0) 300 (a 300)) :=
    decreaseLength_eq_detach hs' (by simp) rfl htab hnone
  rw [hdec] at hunmap
  have hgone : (vmmUnmapPage s₂ 0 slot).2.mem ((vmmUnmapPage s₂ 0 slot).2.toplevel 0) 300 = 0 := by
    rw [hunmap, State.detach_mem, if_pos ⟨rfl, rfl⟩]
  refine ⟨s₀, _, picksFree_nextPage, hinit, hrun, hgone, fun h => ?_⟩
  have hent := h.entries 300 (by norm_num) (by norm_num)
  have hlt := hb.table_aligned 300 (by norm_num) (by norm_num)
  rw [hgone, hb.entry, if_pos (by norm_num)] at hent
  omega

end KernelModel.Vmm
