import KernelModel.VmmTables
import KernelModel.Runs

/-!
All page maps share one kernel half.

Mapping and unmapping keep the tables of the kernel half apart and their counts right. They would
keep the 256 upper entries of the kernel's page map as well if a table that has lost its last
entry were not given back also where the entry for it is one of these.
-/

namespace KernelModel.Vmm

open Runs

/-- What is owed when the table at `r` has lost an entry that its count still has, or will get
one that its count already has. -/
def owe (r : List ℕ) : List ℕ → ℤ := fun r' => if r' = r then 1 else 0

/-- The place of the entry that points to the table `q` at the path `r`. -/
inductive At (s : State) : Loc → List ℕ → ℕ → Prop
  | top : At s (.toplevel 0) [] (s.toplevel 0)
  | entry {t x q : ℕ} {p : List ℕ} (ht : tableAt s p = some t) (hx : x < 512)
      (hq : tableAt s (x :: p) = some q) : At s (.entry t x) (x :: p) q

section

variable {s s' : State} {n x q e : ℕ} {a : ℕ → ℕ} {owed : List ℕ → ℤ} {r : List ℕ} {table : Loc}

lemma At.tableAt (h : At s table r q) : tableAt s r = some q := by
  cases h with
  | top => rfl
  | entry _ _ hq => exact hq

lemma address_of_pointer (h : pointer e = some q) : address e = q := by
  unfold pointer at h
  split_ifs at h
  exact Option.some.inj h

lemma At.child (h : At s table r q) (hs : Shared s n a owed) (x : ℕ) :
    child s table x = .entry q x := by
  unfold Vmm.child
  cases h with
  | top =>
    have := hs.aligned 0 n.zero_le
    have haddr : address (s.toplevel 0) = s.toplevel 0 := by
      rw [address]
      omega
    simp only [State.read, haddr]
  | entry ht hx hq =>
    rw [Vmm.tableAt, ht, Option.bind_some] at hq
    simp only [State.read, address_of_pointer hq]

lemma count_add (e : ℕ) (he : e < 2 ^ 64) (hc : count e < 2 ^ 11 - 1) :
    (e + 2 ^ 52) % 2 ^ 64 = e + 2 ^ 52 ∧ count (e + 2 ^ 52) = count e + 1 := by
  unfold count at *
  omega

lemma count_sub (e : ℕ) (he : e < 2 ^ 64) (hc : 0 < count e) :
    (e + 2 ^ 64 - 2 ^ 52) % 2 ^ 64 = e - 2 ^ 52 ∧ count (e - 2 ^ 52) = count e - 1 ∧ 2 ^ 52 ≤ e ∧
      (e - 2 ^ 52) % 2 ^ 52 = e % 2 ^ 52 := by
  unfold count at *
  omega

lemma pointer_add (e : ℕ) (h : pointer e = some q) : pointer (e + 2 ^ 52) = some q := by
  unfold pointer at h ⊢
  split_ifs at h with hc
  have hlarge : large (e + 2 ^ 52) = large e := by
    simp only [large, decide_eq_decide]
    omega
  have haddr : address (e + 2 ^ 52) = address e := by
    unfold address
    omega
  rw [if_neg (by rw [hlarge]; simp only [not_or] at hc ⊢; exact ⟨by omega, hc.2⟩), haddr]
  exact h

lemma pointer_sub (e : ℕ) (he : 2 ^ 52 ≤ e) (hpres : present e = true) (h : pointer e = some q) :
    pointer (e - 2 ^ 52) = some q ∧ present (e - 2 ^ 52) = true := by
  unfold pointer at h ⊢
  split_ifs at h with hc
  have hlarge : large (e - 2 ^ 52) = large e := by
    simp only [large, decide_eq_decide]
    omega
  have haddr : address (e - 2 ^ 52) = address e := by
    unfold address
    omega
  have hpres' : present (e - 2 ^ 52) = true := by
    unfold present at *
    simp only [decide_eq_true_eq] at *
    omega
  have hne : e - 2 ^ 52 ≠ 0 := by
    rintro h0
    rw [h0] at hpres'
    cases hpres'
  rw [if_neg (by rw [hlarge]; simp only [not_or] at hc ⊢; exact ⟨hne, hc.2⟩), haddr]
  exact ⟨h, hpres'⟩

lemma increaseLength_spec (hs : Shared s n a fun _ => 0) (h : At s table r q) (hr : r ≠ [])
    (hlen : r.length ≤ 3) :
    Shared (increaseLength s table) n a (owe r) ∧ At (increaseLength s table) table r q ∧
      (increaseLength s table).used = s.used ∧ (increaseLength s table).toplevel = s.toplevel ∧
      ∀ y, (increaseLength s table).mem q y = s.mem q y := by
  cases h with
  | top => exact absurd rfl hr
  | @entry t x q p ht hx hq =>
    rw [List.length_cons] at hlen
    have hptr : pointer (s.mem t x) = some q := by
      rwa [Vmm.tableAt, ht, Option.bind_some] at hq
    have hne : s.mem t x ≠ 0 := by
      rintro h0
      rw [h0] at hptr
      cases hptr
    have hpres := hs.is_present p t x (by omega) ht hne
    have hword := hs.word p t x (by omega) ht
    have hcount := hs.counts x p t q (by omega) ht hq
    have hle := entries_le s q
    obtain ⟨hmod, hadd⟩ := count_add (s.mem t x) hword (by omega)
    have hinc : increaseLength s (.entry t x) = s.write (.entry t x) (s.mem t x + 2 ^ 52) := by
      simp only [increaseLength, State.read, hpres, if_true, hmod]
    have hnew : s.mem t x + 2 ^ 52 < 2 ^ 64 := hmod ▸ Nat.mod_lt _ (by norm_num)
    have hpres' : present (s.mem t x + 2 ^ 52) = true := by
      unfold present at hpres ⊢
      simp only [decide_eq_true_eq] at hpres ⊢
      omega
    have hsame : p.length = 3 ∨ pointer (s.mem t x + 2 ^ 52) = pointer (s.mem t x) :=
      .inr (by rw [pointer_add _ hptr, hptr])
    have hwrite := hs.write (p := p) (by omega) ht hx hnew (fun _ => hpres') hsame
      (fun _ => by omega)
    have hpath := hs.tableAt_write (p := p) (by omega) ht hsame
    have htq : q ≠ t := by
      rintro rfl
      have := congrArg List.length (hs.inj _ _ q (by simp; omega) (by omega) hq ht)
      simp at this
    rw [hinc]
    refine ⟨hwrite.congr fun u _ _ => ?_, ?_, rfl, rfl, fun y => ?_⟩
    · have h1 : s.mem t x + 2 ^ 52 ≠ 0 := by omega
      simp only [owe, hadd, h1, hne, ne_eq, not_false_eq_true, if_true]
      split_ifs <;> push_cast <;> ring
    · exact At.entry (by rw [hpath p (by omega), ht]) hx
        (by rw [hpath _ (by simp; omega), hq])
    · rw [write_mem, if_neg (fun hc => htq hc.1)]

/-- An entry that nothing is followed from: in a lowest table, or for a large page. -/
def IsLeaf (r : List ℕ) (e : ℕ) : Prop := r.length = 3 ∨ large e = true

lemma pointer_of_large (h : large e = true) : pointer e = none := by
  rw [pointer, if_pos (.inr h)]

/-- **Writing a leaf** in the place of a leaf or of nothing. -/
lemma Shared.write_leaf (hs : Shared s n a owed) (hr : r ≠ []) (hlen : r.length ≤ 3)
    (hq : tableAt s r = some q) (hx : x < 512) (he : e < 2 ^ 64) (hpres : e ≠ 0 → present e = true)
    (hold : s.mem q x = 0 ∨ IsLeaf r (s.mem q x)) (hnew : e = 0 ∨ IsLeaf r e) :
    Shared (s.write (.entry q x) e) n a (fun u => owed u
      - if u = r then (if e ≠ 0 then 1 else 0) - (if s.mem q x ≠ 0 then 1 else 0) else 0) ∧
    ∀ u : List ℕ, u.length ≤ 3 → tableAt (s.write (.entry q x) e) u = tableAt s u := by
  have hnone : ∀ e, e = 0 ∨ IsLeaf r e → r.length = 3 ∨ pointer e = none := by
    rintro e (rfl | hl | hl)
    · exact .inr rfl
    · exact .inl hl
    · exact .inr (pointer_of_large hl)
  have hptr : r.length = 3 ∨ pointer e = pointer (s.mem q x) := by
    rcases hnone _ hold with hl | hl
    · exact .inl hl
    · rw [hl]
      exact hnone _ hnew
  have hpath := hs.tableAt_write hlen hq hptr
  refine ⟨(hs.write hlen hq hx he hpres hptr fun h => absurd h hr).congr fun u hu htu => ?_, hpath⟩
  -- no table is below the entry
  have hne : u ≠ x :: r := by
    rintro rfl
    rw [hpath _ hu, Vmm.tableAt, hq, Option.bind_some] at htu
    rw [List.length_cons] at hu
    rcases hnone _ hold with hl | hl
    · omega
    · exact htu hl
  rw [if_neg hne, add_zero]

lemma placeEntry_spec (hs : Shared s n a fun _ => 0) (h : At s table r q) (hr : r ≠ [])
    (hlen : r.length ≤ 3) (hx : x < 512) (he : e < 2 ^ 64) (hpres : present e = true)
    (hleaf : IsLeaf r e) (hrun : placeEntry s table x e = some s') :
    Shared s' n a (fun _ => 0) ∧ s'.toplevel = s.toplevel := by
  unfold placeEntry at hrun
  rw [h.child hs] at hrun
  split_ifs at hrun with hp
  -- the entry is not present, so there is none
  have hzero : s.mem q x = 0 := by
    by_contra hne
    exact hp (hs.is_present r q x hlen h.tableAt hne)
  obtain ⟨hs₁, h₁, -, htop, hmem⟩ := increaseLength_spec hs h hr hlen
  have hinc : increaseLengthIfEntryEmpty s table x = increaseLength s table := by
    simp only [increaseLengthIfEntryEmpty, h.child hs, State.read, hzero, if_true]
  simp only [hinc, h₁.child hs₁, Option.some.injEq] at hrun
  subst hrun
  have he0 : e ≠ 0 := by
    rintro rfl
    cases hpres
  have hzero₁ : (increaseLength s table).mem q x = 0 := by rw [hmem, hzero]
  obtain ⟨hw, -⟩ := hs₁.write_leaf hr hlen h₁.tableAt hx he (fun _ => hpres) (.inl hzero₁)
    (.inr hleaf)
  refine ⟨hw.congr fun u _ _ => ?_, htop⟩
  simp only [owe, he0, hzero₁, ne_eq, not_true_eq_false, not_false_eq_true, if_true, if_false]
  split_ifs <;> rfl

/-- The allocator gives out pages that are free. -/
def PicksFree (pick : Finset ℕ → Option ℕ) : Prop :=
  ∀ used p, pick used = some p → p ∉ used ∧ p % 2 ^ 12 = 0 ∧ p < 2 ^ 48

lemma At.entry_of_small (h : At s table r q) (hx : x < 512)
    (hne : s.mem q x ≠ 0) (hsmall : large (s.mem q x) = false) :
    At s (.entry q x) (x :: r) (address (s.mem q x)) := by
  refine At.entry h.tableAt hx ?_
  rw [Vmm.tableAt, h.tableAt, Option.bind_some, pointer, if_neg (by simp [hne, hsmall])]

lemma allocChildTable_spec {pick : Finset ℕ → Option ℕ} {place : Loc} (hpick : PicksFree pick)
    (hs : Shared s n a fun _ => 0) (h : At s table r q) (hr : r ≠ []) (hlen : r.length ≤ 2)
    (hx : x < 512) (hsmall : large (s.mem q x) = false)
    (hrun : allocChildTable pick s table x = some (place, s')) :
    Shared s' n a (fun _ => 0) ∧ s'.toplevel = s.toplevel ∧
      ∃ q', At s' place (x :: r) q' ∧ (s' = s ∨ ∀ y, s'.mem q' y = 0) := by
  unfold allocChildTable at hrun
  rw [h.child hs] at hrun
  by_cases hne : s.mem q x ≠ 0
  · rw [if_pos (show s.read (.entry q x) ≠ 0 from hne)] at hrun
    simp only [Option.some.injEq, Prod.mk.injEq] at hrun
    obtain ⟨rfl, rfl⟩ := hrun
    exact ⟨hs, rfl, _, h.entry_of_small hx hne hsmall, .inl rfl⟩
  · rw [if_neg (show ¬ s.read (.entry q x) ≠ 0 from hne)] at hrun
    rw [not_not] at hne
    obtain ⟨hs₁, h₁, hused, htop, hmem⟩ := increaseLength_spec hs h hr (by omega)
    rw [pmmAlloc, Option.map_map, Option.map_eq_some_iff] at hrun
    obtain ⟨q', hq', hrun⟩ := hrun
    obtain ⟨hfree, hal, hlt⟩ := hpick _ _ hq'
    simp only [Function.comp_apply, Prod.mk.injEq] at hrun
    obtain ⟨rfl, hrun⟩ := hrun
    have hrun : s' = (increaseLength s table).attach q x q' := hrun.symm
    subst hrun
    have hzero : (increaseLength s table).mem q x = 0 := by rw [hmem, hne]
    have hcyc : ¬ (x :: r = r) := fun hc => by
      have := congrArg List.length hc
      simp at this
    have hatt := hs₁.attach hlen h₁.tableAt hx hzero hfree hal hlt (by rw [owe, if_neg hcyc])
    have hpath := hs₁.tableAt_attach hlen h₁.tableAt hzero hfree hal hlt
    refine ⟨hatt.congr fun u _ _ => ?_, htop, q', At.entry ?_ hx ?_, .inr fun y => ?_⟩
    · simp only [owe]
      split_ifs <;> rfl
    · rw [hpath r (by omega), if_neg (Ne.symm hcyc), h₁.tableAt]
    · rw [hpath _ (by simp; omega), if_pos rfl]
    · have hqq : q' ≠ q := by
        rintro rfl
        exact hfree (hs₁.used r q' (by omega) h₁.tableAt)
      rw [State.attach_mem hal, if_neg (fun hc => hqq hc.1), if_pos rfl]

lemma allocChildTable_upper (pick : Finset ℕ → Option ℕ) (hs : Shared s n a fun _ => 0)
    (hlo : 256 ≤ x) (hx : x < 512) :
    allocChildTable pick s (.toplevel 0) x = some (.entry (s.toplevel 0) x, s) ∧
      At s (.entry (s.toplevel 0) x) [x] (a x) := by
  have hup := hs.upper 0 n.zero_le x hlo hx
  have hne : s.mem (s.toplevel 0) x ≠ 0 := by
    intro h0
    rw [h0] at hup
    cases hup
  refine ⟨?_, At.entry rfl hx hup⟩
  unfold allocChildTable
  rw [At.top.child hs, if_pos (show s.read (.entry (s.toplevel 0) x) ≠ 0 from hne)]

/-! ### Counting down -/

lemma Shared.count_owe {t : ℕ} {p : List ℕ} (hs : Shared s n a (owe (x :: p))) (hlen : p.length ≤ 2)
    (ht : Vmm.tableAt s p = some t) (hq : Vmm.tableAt s (x :: p) = some q) :
    present (s.mem t x) = true ∧ pointer (s.mem t x) = some q ∧
      count (s.mem t x) = entries s q + 1 := by
  have hptr : pointer (s.mem t x) = some q := by
    rwa [Vmm.tableAt, ht, Option.bind_some] at hq
  have hne : s.mem t x ≠ 0 := by
    intro h0
    rw [h0] at hptr
    cases hptr
  have hc := hs.counts x p t q hlen ht hq
  rw [owe, if_pos rfl] at hc
  exact ⟨hs.is_present p t x (by omega) ht hne, hptr, by omega⟩

lemma decreaseLength_keeps {p : List ℕ} (hs : Shared s n a (owe (x :: p)))
    (h : At s table (x :: p) q) (hlen : p.length ≤ 2) (hleft : entries s q ≠ 0) :
    (decreaseLength s table).1 = false ∧ Shared (decreaseLength s table).2 n a (fun _ => 0) ∧
      (decreaseLength s table).2.toplevel = s.toplevel := by
  cases h with
  | @entry t _ _ _ ht hx hq =>
    obtain ⟨hpres, hptr, hcount⟩ := hs.count_owe hlen ht hq
    have hword := hs.word p t x (by omega) ht
    obtain ⟨hmod, hsub, hbig, hbits⟩ := count_sub (s.mem t x) hword (by omega)
    obtain ⟨hptr', hpres'⟩ := pointer_sub (s.mem t x) hbig hpres hptr
    have hdec : decreaseLength s (.entry t x) =
        (false, s.write (.entry t x) (s.mem t x - 2 ^ 52)) := by
      have hcne : count (s.mem t x - 2 ^ 52) ≠ 0 := by omega
      simp only [decreaseLength, State.read, hpres, if_true, hmod, hcne, ne_eq, not_false_eq_true]
    have hwrite := hs.write (p := p) (by omega) ht hx (e := s.mem t x - 2 ^ 52) (by omega)
      (fun _ => hpres') (.inr (by rw [hptr', hptr])) (fun _ => hbits)
    rw [hdec]
    refine ⟨rfl, hwrite.congr fun u _ _ => ?_, rfl⟩
    have h0 : s.mem t x - 2 ^ 52 ≠ 0 := by
      intro h0
      rw [h0] at hpres'
      cases hpres'
    have h1 : s.mem t x ≠ 0 := by omega
    have hdiff : (count (s.mem t x - 2 ^ 52) : ℤ) - count (s.mem t x) = -1 := by omega
    simp only [owe, hdiff, h0, h1, ne_eq, not_false_eq_true, if_true]
    split_ifs <;> rfl

lemma decreaseLength_eq_detach {t : ℕ} {p : List ℕ} (hs : Shared s n a (owe (x :: p)))
    (hlen : p.length ≤ 2) (ht : Vmm.tableAt s p = some t) (hq : Vmm.tableAt s (x :: p) = some q)
    (hnone : entries s q = 0) : decreaseLength s (.entry t x) = (true, s.detach t x q) := by
  obtain ⟨hpres, hptr, hcount⟩ := hs.count_owe hlen ht hq
  have hword := hs.word p t x (by omega) ht
  obtain ⟨hmod, hsub, hbig, -⟩ := count_sub (s.mem t x) hword (by omega)
  obtain ⟨hptr', -⟩ := pointer_sub (s.mem t x) hbig hpres hptr
  have hczero : count (s.mem t x - 2 ^ 52) = 0 := by omega
  simp only [decreaseLength, State.read, hpres, if_true, hmod, hczero, ne_eq, not_true_eq_false,
    if_false, address_of_pointer hptr', State.detach]

/-- **Counting down** where no entries are left: the table goes, and the one above has lost an
entry. -/
lemma decreaseLength_frees {t : ℕ} {p : List ℕ} (hs : Shared s n a (owe (x :: p)))
    (h : At s table (x :: p) q) (hlen : p.length ≤ 2) (hne : p ≠ []) (hnone : entries s q = 0)
    (ht : Vmm.tableAt s p = some t) :
    (decreaseLength s table).1 = true ∧ Shared (decreaseLength s table).2 n a (owe p) ∧
      (decreaseLength s table).2.toplevel = s.toplevel ∧
      (∀ u : List ℕ, u.length ≤ 3 → Vmm.tableAt (decreaseLength s table).2 u
        = if u = x :: p then none else Vmm.tableAt s u) ∧
      ∀ t', (entries (decreaseLength s table).2 t' : ℤ) =
        entries s t' - if t' = t then 1 else 0 := by
  cases h with
  | @entry t' _ _ _ ht' hx hq =>
    obtain rfl : t' = t := by
      rw [ht] at ht'
      exact (Option.some.inj ht').symm
    have hdet := hs.detach hlen hne ht hx hq hnone
    have hpath := hs.tableAt_detach hlen ht hq hnone
    have hmem : s.mem t' x ≠ 0 := by
      intro h0
      rw [Vmm.tableAt, ht, Option.bind_some, h0] at hq
      cases hq
    rw [decreaseLength_eq_detach hs hlen ht hq hnone]
    refine ⟨rfl, hdet.congr fun u hu htu => ?_, rfl, hpath, fun u => ?_⟩
    · -- nothing is owed at the table that is gone
      have hux : u ≠ x :: p := by
        rintro rfl
        rw [hpath _ hu, if_pos rfl] at htu
        exact htu rfl
      simp only [owe, if_neg hux, zero_add]
    · have hsame : (pmmDealloc s q).mem t' x ≠ 0 := hmem
      have hent : entries (pmmDealloc s q) u = entries s u := rfl
      simp only [State.detach, entries_write hx, hent, hsame, ne_eq, not_true_eq_false,
        not_false_eq_true, if_true, if_false, zero_sub]
      split_ifs <;> ring

lemma At.mono (h : At s table r q) (s' : State) (htop : s'.toplevel = s.toplevel)
    (hpath : ∀ u, u <:+ r → Vmm.tableAt s' u = Vmm.tableAt s u) : At s' table r q := by
  cases h with
  | top =>
    rw [← htop]
    exact At.top
  | @entry t x q p ht hx hq =>
    refine At.entry ?_ hx ?_
    · rw [hpath p (List.suffix_cons x p), ht]
    · rw [hpath _ List.suffix_rfl, hq]

lemma ne_of_suffix {p u : List ℕ} (h : u <:+ p) : u ≠ x :: p := by
  rintro rfl
  have := h.length_le
  simp at this

section

variable {i j k q₁ q₂ q₃ : ℕ} {pml1 pml2 pml3 : Loc}

lemma decreaseLength_two (hs : Shared s n a (owe [j, i])) (h₂ : At s pml2 [j, i] q₂)
    (h₃ : At s pml3 [i] q₃) (hleft : entries s q₂ = 0 → 1 < entries s q₃) :
    Shared (if (decreaseLength s pml2).1 then (decreaseLength (decreaseLength s pml2).2 pml3).2
      else (decreaseLength s pml2).2) n a (fun _ => 0) ∧
    (if (decreaseLength s pml2).1 then (decreaseLength (decreaseLength s pml2).2 pml3).2
      else (decreaseLength s pml2).2).toplevel = s.toplevel := by
  by_cases hq : entries s q₂ = 0
  · obtain ⟨hb, hs', htop, hpath, hent⟩ :=
      decreaseLength_frees hs h₂ (by simp) (by simp) hq h₃.tableAt
    have h₃' : At (decreaseLength s pml2).2 pml3 [i] q₃ := h₃.mono _ htop fun u hu => by
      rw [hpath u (hu.length_le.trans (by simp)), if_neg (ne_of_suffix hu)]
    have hq₃ := hent q₃
    rw [if_pos rfl] at hq₃
    have hlt := hleft hq
    obtain ⟨-, hs'', htop'⟩ := decreaseLength_keeps hs' h₃' (by simp) (by omega)
    rw [hb, if_pos rfl]
    exact ⟨hs'', htop'.trans htop⟩
  · obtain ⟨hb, hs', htop⟩ := decreaseLength_keeps hs h₂ (by simp) hq
    rw [hb, if_neg Bool.false_ne_true]
    exact ⟨hs', htop⟩

lemma decreaseLength_three (hs : Shared s n a (owe [k, j, i])) (h₁ : At s pml1 [k, j, i] q₁)
    (h₂ : At s pml2 [j, i] q₂) (h₃ : At s pml3 [i] q₃)
    (hleft : entries s q₁ = 0 → entries s q₂ ≤ 1 → 1 < entries s q₃) :
    ∀ r, r = decreaseLength s pml1 →
    Shared (if r.1 then if (decreaseLength r.2 pml2).1
        then (decreaseLength (decreaseLength r.2 pml2).2 pml3).2 else (decreaseLength r.2 pml2).2
      else r.2) n a (fun _ => 0) ∧
    (if r.1 then if (decreaseLength r.2 pml2).1
        then (decreaseLength (decreaseLength r.2 pml2).2 pml3).2 else (decreaseLength r.2 pml2).2
      else r.2).toplevel = s.toplevel := by
  rintro r rfl
  by_cases hq : entries s q₁ = 0
  · obtain ⟨hb, hs', htop, hpath, hent⟩ :=
      decreaseLength_frees hs h₁ (by simp) (by simp) hq h₂.tableAt
    have hkeep : ∀ u, u <:+ [j, i] →
        Vmm.tableAt (decreaseLength s pml1).2 u = Vmm.tableAt s u := fun u hu => by
      rw [hpath u (hu.length_le.trans (by simp)), if_neg (ne_of_suffix hu)]
    have h₂' : At (decreaseLength s pml1).2 pml2 [j, i] q₂ := h₂.mono _ htop hkeep
    have h₃' : At (decreaseLength s pml1).2 pml3 [i] q₃ :=
      h₃.mono _ htop fun u hu => hkeep u (hu.trans (List.suffix_cons j [i]))
    have hne : q₃ ≠ q₂ := by
      rintro rfl
      have := hs.inj [i] [j, i] q₃ (by simp) (by simp) h₃.tableAt h₂.tableAt
      simp at this
    have hq₂ := hent q₂
    have hq₃ := hent q₃
    rw [if_pos rfl] at hq₂
    rw [if_neg hne] at hq₃
    have hlt := hleft hq
    obtain ⟨hs'', htop'⟩ := decreaseLength_two hs' h₂' h₃' (by omega)
    rw [hb, if_pos rfl]
    exact ⟨hs'', htop'.trans htop⟩
  · obtain ⟨hb, hs', htop⟩ := decreaseLength_keeps hs h₁ (by simp) hq
    rw [hb, if_neg Bool.false_ne_true]
    exact ⟨hs', htop⟩

end

end

end KernelModel.Vmm
