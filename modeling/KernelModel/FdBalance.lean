import KernelModel.Fd

/-!
When the references of descriptors and their holders stay in balance.
-/

namespace KernelModel.Fd

open Runs

variable {s s' : State} {p h : ℕ}

/-! ### Pairs of an acquisition and releases -/

/-- What a lookup with two releases does. -/
def drop (s : State) (h : ℕ) : State := if s.rc h = 0 then s else handleRelease s h

/-- The state after a lookup that found the handle. -/
def acquired (s : State) (h : ℕ) : State :=
  { s with rc := Function.update s.rc h (s.rc h + 1) }

lemma lookup_of_ne (hs : s.rc h ≠ 0) : handleLookupAndAcquire s h = some (acquired s h) :=
  if_neg hs

lemma lookup_of_eq (hs : s.rc h = 0) : handleLookupAndAcquire s h = none := if_pos hs

lemma release_acquired (hs : s.rc h ≠ 0) : handleRelease (acquired s h) h = s := by
  simp [handleRelease, acquired, hs]

lemma fdUnref_eq (s : State) (h : ℕ) : fdUnref s h = drop s h := by
  unfold fdUnref drop
  by_cases hs : s.rc h = 0
  · rw [lookup_of_eq hs, if_pos hs]
  · simp only [lookup_of_ne hs, release_acquired hs, if_neg hs]

lemma handleListDestroyEntry_eq (s : State) (h : ℕ) : handleListDestroyEntry s h = drop s h := by
  unfold handleListDestroyEntry drop
  by_cases hs : s.rc h = 0
  · rw [lookup_of_eq hs, if_pos hs]
  · simp only [lookup_of_ne hs, release_acquired hs, if_pos hs, if_neg hs]

lemma drops_eq (L : List ℕ) (s : State) : ∃ acl, L.foldl drop s =
    { s with rc := fun h => s.rc h - L.count h
             acl := acl } := by
  induction L generalizing s with
  | nil => exact ⟨s.acl, rfl⟩
  | cons k L ih =>
    obtain ⟨acl, hacl⟩ := ih (drop s k)
    refine ⟨acl, ?_⟩
    rw [List.foldl_cons, hacl]
    have hrc : ∀ h, (drop s k).rc h = s.rc h - if k = h then 1 else 0 := by
      intro h
      unfold drop
      by_cases hk : k = h
      · subst hk
        by_cases hz : s.rc k = 0
        · simp [hz]
        · simp [hz, handleRelease]
      · by_cases hz : s.rc k = 0
        · simp [hz, hk]
        · simp [hz, hk, handleRelease, Function.update_of_ne (Ne.symm hk)]
    have hframe : { drop s k with rc := s.rc, acl := s.acl } = s := by
      unfold drop
      split_ifs <;> rfl
    have hcount : ∀ h, (drop s k).rc h - L.count h = s.rc h - (k :: L).count h := by
      intro h
      rw [hrc, List.count_cons, Nat.sub_sub, Nat.add_comm]
      simp only [beq_iff_eq]
    simp only [hcount]
    conv_rhs => rw [← hframe]

/-! ### Holders -/

/-- The counts and the references agree with the indices that were handed out. -/
structure WellFormed (s : State) : Prop where
  alive_lt : ∀ p, s.alive p = true → p < s.processCount
  fresh : ∀ h, s.count ≤ h → s.rc h = 0
  refs_lt : ∀ p, ∀ h ∈ s.refs p, h < s.count

lemma count_refs_le (hp : p < s.processCount) (h : ℕ) : (s.refs p).count h ≤ s.holders h :=
  Finset.single_le_sum (f := fun p => (s.refs p).count h) (fun _ _ => Nat.zero_le _)
    (Finset.mem_range.mpr hp)

lemma holders_change (hp : p < s.processCount) (hcount : s'.processCount = s.processCount)
    (hq : ∀ q, q ≠ p → s'.refs q = s.refs q) (h : ℕ) :
    s'.holders h + (s.refs p).count h = s.holders h + (s'.refs p).count h := by
  have hmem := Finset.mem_range.mpr hp
  unfold State.holders
  rw [hcount, ← Finset.add_sum_erase _ _ hmem, ← Finset.add_sum_erase (Finset.range s.processCount)
    (fun p => (s.refs p).count h) hmem]
  have hrest : ∑ q ∈ (Finset.range s.processCount).erase p, (s'.refs q).count h =
      ∑ q ∈ (Finset.range s.processCount).erase p, (s.refs q).count h :=
    Finset.sum_congr rfl fun q hm => by rw [hq q (Finset.ne_of_mem_erase hm)]
  omega

/-! ### New descriptors -/

lemma refs_fdFromNode (s : State) (p q : ℕ) : (fdFromNode s p).2.refs q =
    if q = p then s.handleList p ++ [s.count] ++ (streams.filter (s.fdHeld p)).map (s.fdStd p)
    else s.refs q := by
  simp only [State.refs, fdFromNode, handleNew, handleListPush, aclSet]
  split_ifs with hq
  · rw [hq, Function.update_self]
  · rw [Function.update_of_ne hq]

lemma WellFormed.fdFromNode (hs : WellFormed s) : WellFormed (fdFromNode s p).2 := by
  refine ⟨hs.alive_lt, fun h hle => ?_, fun q h hm => ?_⟩
  · have hle : s.count + 1 ≤ h := hle
    have hne : h ≠ s.count := by omega
    have hrc : (Fd.fdFromNode s p).2.rc h = s.rc h := Function.update_of_ne hne _ _
    rw [hrc]
    exact hs.fresh h (by omega)
  · have hlt : h ≤ s.count → h < (Fd.fdFromNode s p).2.count := Nat.lt_succ_of_le
    rw [refs_fdFromNode] at hm
    apply hlt
    split_ifs at hm with hq
    · simp only [List.append_assoc, List.mem_append, List.mem_singleton] at hm
      rcases hm with hm | rfl | hm
      · exact (hs.refs_lt p h (List.mem_append_left _ hm)).le
      · rfl
      · exact (hs.refs_lt p h (List.mem_append_right _ hm)).le
    · exact (hs.refs_lt q h hm).le

lemma WellFormed.balanced_fdFromNode (hs : WellFormed s) (hb : s.Balanced)
    (hp : p < s.processCount) : (Fd.fdFromNode s p).2.Balanced := by
  intro h
  have hchange :=
    holders_change hp (show (Fd.fdFromNode s p).2.processCount = s.processCount from rfl)
    (fun q hq => by rw [refs_fdFromNode, if_neg hq]) h
  have hnew : ((Fd.fdFromNode s p).2.refs p).count h =
      (s.refs p).count h + if s.count = h then 1 else 0 := by
    rw [refs_fdFromNode, if_pos rfl, State.refs]
    simp only [List.count_append, List.count_singleton, beq_iff_eq]
    omega
  have hrc : (Fd.fdFromNode s p).2.rc h = s.rc h + if s.count = h then 1 else 0 := by
    by_cases hh : s.count = h
    · subst hh
      have hfresh := hs.fresh s.count le_rfl
      simp [Fd.fdFromNode, handleNew, handleListPush, aclSet, hfresh]
    · simp [Fd.fdFromNode, handleNew, handleListPush, aclSet, hh,
        Function.update_of_ne (Ne.symm hh)]
  have hold := hb h
  omega

lemma WellFormed.release_fdFromNode (hs : WellFormed s) (hh : s.rc h ≠ 0) (p : ℕ) :
    handleRelease (Fd.fdFromNode (acquired s h) p).2 h = (Fd.fdFromNode s p).2 := by
  have hne : h ≠ s.count := fun he => hh (hs.fresh h he.ge)
  have hrc : (Fd.fdFromNode (acquired s h) p).2.rc h = s.rc h + 1 := by
    simp [Fd.fdFromNode, handleNew, handleListPush, aclSet, acquired, Function.update_of_ne hne]
  have hacl : (Fd.fdFromNode (acquired s h) p).2.acl = (Fd.fdFromNode s p).2.acl := rfl
  have hupdate : Function.update (Fd.fdFromNode (acquired s h) p).2.rc h (s.rc h) =
      (Fd.fdFromNode s p).2.rc := by
    funext k
    by_cases hk : k = h
    · subst hk
      simp [Fd.fdFromNode, handleNew, handleListPush, aclSet, Function.update_of_ne hne]
    · rw [Function.update_of_ne hk]
      simp only [Fd.fdFromNode, handleNew, handleListPush, aclSet, acquired]
      by_cases hk' : k = s.count
      · subst hk'
        rw [Function.update_self, Function.update_self]
      · rw [Function.update_of_ne hk', Function.update_of_ne hk', Function.update_of_ne hk]
  unfold handleRelease
  rw [hrc, Nat.add_sub_cancel, if_neg hh, hupdate, hacl]
  rfl

/-- A call of `syscall_fd_dup` makes a new descriptor or changes nothing. -/
lemma WellFormed.syscallFdDup (hs : WellFormed s) (p : ℕ) (fd : Dup) :
    (Fd.syscallFdDup s p fd).2 = s ∨ (Fd.syscallFdDup s p fd).2 = (Fd.fdFromNode s p).2 := by
  unfold Fd.syscallFdDup
  split_ifs with hcwd
  · exact .inr rfl
  · by_cases hfd : s.rc (fd.target s p) = 0
    · exact .inl (by simp only [lookup_of_eq hfd])
    · simp only [lookup_of_ne hfd]
      split_ifs
      · exact .inr (hs.release_fdFromNode hfd p)
      · exact .inl (release_acquired hfd)

lemma syscallFdOpen_cases (s : State) (p root : ℕ) (found : Bool) :
    (syscallFdOpen s p root found).2 = s ∨
      (syscallFdOpen s p root found).2 = (fdFromNode s p).2 := by
  unfold syscallFdOpen
  split_ifs
  · exact .inl rfl
  · exact .inl rfl
  · exact .inr rfl

/-! ### Closing -/

lemma syscallFdClose_cases (s : State) (p fd : ℕ) :
    (¬(s.rc fd ≠ 0 ∧ .close ∈ s.acl fd p) ∧ (syscallFdClose s p fd).2 = s) ∨
      (s.rc fd ≠ 0 ∧ .close ∈ s.acl fd p) ∧
        (syscallFdClose s p fd).2 = handleRelease (handleListPop s p fd) fd := by
  unfold syscallFdClose
  by_cases hfd : s.rc fd = 0
  · rw [lookup_of_eq hfd]
    exact .inl ⟨fun hc => hc.1 hfd, rfl⟩
  · simp only [lookup_of_ne hfd]
    have hacl : (acquired s fd).acl fd p = s.acl fd p := rfl
    rw [hacl]
    split_ifs with hclose
    · refine .inr ⟨⟨hfd, hclose⟩, ?_⟩
      have hpop : handleListPop (acquired s fd) p fd = acquired (handleListPop s p fd) fd := rfl
      have hrc : (handleListPop s p fd).rc fd ≠ 0 := hfd
      simp only [hpop, release_acquired hrc]
    · exact .inl ⟨fun hc => hclose hc.2, release_acquired hfd⟩

lemma refs_close (s : State) (p fd q : ℕ) :
    (handleRelease (handleListPop s p fd) fd).refs q =
      if q = p then (s.handleList p).erase fd ++ (streams.filter (s.fdHeld p)).map (s.fdStd p)
      else s.refs q := by
  simp only [State.refs, handleRelease, handleListPop]
  split_ifs with hq
  · rw [hq, Function.update_self]
  · rw [Function.update_of_ne hq]

lemma rc_release (s : State) (h k : ℕ) :
    (handleRelease s h).rc k = s.rc k - if h = k then 1 else 0 := by
  by_cases hk : h = k
  · subst hk
    simp [handleRelease]
  · simp [handleRelease, hk, Function.update_of_ne (Ne.symm hk)]

lemma WellFormed.close (hs : WellFormed s) (p fd : ℕ) :
    WellFormed (handleRelease (handleListPop s p fd) fd) := by
  refine ⟨hs.alive_lt, fun h hle => ?_, fun q h hm => ?_⟩
  · have hrc : (handleListPop s p fd).rc h = 0 := hs.fresh h hle
    rw [rc_release, hrc, Nat.zero_sub]
  · rw [refs_close] at hm
    split_ifs at hm with hq
    · refine hs.refs_lt p h (List.mem_append.mpr ?_)
      exact (List.mem_append.mp hm).imp_left List.mem_of_mem_erase
    · exact hs.refs_lt q h hm

/-- **A close keeps the balance** just when the handle is in the caller's list. -/
lemma balanced_close (hb : s.Balanced) (hp : p < s.processCount) {fd : ℕ} (hfd : s.rc fd ≠ 0) :
    (handleRelease (handleListPop s p fd) fd).Balanced ↔ fd ∈ s.handleList p := by
  have hchange := fun h => holders_change hp
    (show (handleRelease (handleListPop s p fd) fd).processCount = s.processCount from rfl)
    (fun q hq => by rw [refs_close, if_neg hq]) h
  have hrc : ∀ h, (handleRelease (handleListPop s p fd) fd).rc h =
      s.rc h - if fd = h then 1 else 0 := fun h => rc_release _ _ _
  have hcount : ∀ h, ((handleRelease (handleListPop s p fd) fd).refs p).count h =
      (s.refs p).count h - if fd = h ∧ fd ∈ s.handleList p then 1 else 0 := by
    intro h
    rw [refs_close, if_pos rfl, State.refs, List.count_append, List.count_append, List.count_erase]
    by_cases hh : fd = h
    · subst hh
      by_cases hm : fd ∈ s.handleList p
      · have hpos := List.count_pos_iff.mpr hm
        simp only [beq_self_eq_true, hm, and_self, if_true]
        omega
      · have hzero := List.count_eq_zero.mpr hm
        simp only [beq_self_eq_true, hm, and_false, if_true, if_false]
        omega
    · simp [hh]
  constructor
  · intro hb'
    by_contra hm
    have h1 := hb fd
    have h2 := hb' fd
    have h3 := hchange fd
    rw [hcount, if_neg (fun hc => hm hc.2)] at h3
    rw [hrc, if_pos rfl] at h2
    omega
  · intro hm h
    have h1 := hb h
    have h3 := hchange h
    have hle := count_refs_le hp h
    rw [hcount] at h3
    rw [hrc]
    by_cases hh : fd = h
    · subst hh
      have hpos : 0 < (s.refs p).count fd := List.count_pos_iff.mpr (List.mem_append_left _ hm)
      rw [if_pos ⟨rfl, hm⟩] at h3
      rw [if_pos rfl]
      omega
    · rw [if_neg (fun hc => hh hc.1)] at h3
      rw [if_neg hh]
      omega

/-! ### Starting a process -/

lemma mem_streams (t : Stream) : t ∈ streams := by
  cases t <;> simp [streams]

lemma startStreams (child : ℕ) (L : List Stream) (s : State) :
    ∃ held, L.foldl (startStream child) s =
      { s with
        rc := fun h => s.rc h +
          ((L.filter fun t => s.rc (s.fdStd child t) ≠ 0).map (s.fdStd child)).count h
        fdHeld := held } ∧
      (∀ q, q ≠ child → held q = s.fdHeld q) ∧ ∀ t, held child t =
        if t ∈ L then decide (s.rc (s.fdStd child t) ≠ 0) else s.fdHeld child t := by
  induction L generalizing s with
  | nil => exact ⟨s.fdHeld, rfl, fun _ _ => rfl, fun _ => rfl⟩
  | cons u L ih =>
    obtain ⟨held, heq, hother, hchild⟩ := ih (startStream child s u)
    have hrc : ∀ h, (startStream child s u).rc h =
        s.rc h + if s.rc (s.fdStd child u) ≠ 0 ∧ s.fdStd child u = h then 1 else 0 := by
      intro h
      unfold startStream fdRef
      by_cases hu : s.rc (s.fdStd child u) = 0
      · simp [lookup_of_eq hu, hu]
      · by_cases hh : s.fdStd child u = h
        · subst hh
          simp [lookup_of_ne hu, hu, acquired]
        · simp [lookup_of_ne hu, hh, acquired, Function.update_of_ne (Ne.symm hh)]
    have hstd : (startStream child s u).fdStd = s.fdStd := by
      unfold startStream fdRef
      by_cases hu : s.rc (s.fdStd child u) = 0
      · simp [lookup_of_eq hu]
      · simp [lookup_of_ne hu, acquired]
    -- a reference more does not bring a handle to life
    have hlive : ∀ t, (startStream child s u).rc (s.fdStd child t) ≠ 0 ↔
        s.rc (s.fdStd child t) ≠ 0 := by
      intro t
      rw [hrc]
      split_ifs with hc
      · rw [← hc.2]
        exact ⟨fun _ => hc.1, fun _ => Nat.succ_ne_zero _⟩
      · exact Iff.rfl
    have hheld : (startStream child s u).fdHeld = Function.update s.fdHeld child
        (Function.update (s.fdHeld child) u (decide (s.rc (s.fdStd child u) ≠ 0))) := rfl
    refine ⟨held, ?_, fun q hq => ?_, fun t => ?_⟩
    · obtain ⟨hacl, hcnt, hproc, halive, hlist⟩ : (startStream child s u).acl = s.acl ∧
          (startStream child s u).count = s.count ∧
          (startStream child s u).processCount = s.processCount ∧
          (startStream child s u).alive = s.alive ∧
          (startStream child s u).handleList = s.handleList := by
        unfold startStream fdRef
        by_cases hu : s.rc (s.fdStd child u) = 0
        · simp [lookup_of_eq hu]
        · simp [lookup_of_ne hu, acquired]
      have hcount : ∀ h, (startStream child s u).rc h +
          ((L.filter fun t => s.rc (s.fdStd child t) ≠ 0).map (s.fdStd child)).count h =
          s.rc h + (((u :: L).filter fun t => s.rc (s.fdStd child t) ≠ 0).map
            (s.fdStd child)).count h := by
        intro h
        rw [hrc, List.filter_cons]
        by_cases hu : s.rc (s.fdStd child u) ≠ 0
        · simp only [hu, ne_eq, not_false_eq_true, true_and, decide_true, if_true, List.map_cons,
            List.count_cons, beq_iff_eq]
          omega
        · simp [hu]
      rw [List.foldl_cons, heq]
      simp only [hstd, hlive, hcount, hacl, hcnt, hproc, halive, hlist]
    · rw [hother q hq, hheld, Function.update_of_ne hq]
    · rw [hchild, hheld, hstd, Function.update_self]
      simp only [hlive, List.mem_cons]
      by_cases htL : t ∈ L
      · simp [htL]
      · by_cases htu : t = u
        · subst htu
          simp [htL]
        · simp [htL, htu]

lemma fdAllowDup_eq (s : State) (h p : ℕ) : ∃ acl, fdAllowDup s h p = { s with acl := acl } := by
  unfold fdAllowDup
  by_cases hs : s.rc h = 0
  · exact ⟨s.acl, by rw [lookup_of_eq hs]⟩
  · have hpair : aclSet (acquired s h) h p {.dup} = acquired (aclSet s h p {.dup}) h := rfl
    have hrc : (aclSet s h p {.dup}).rc h ≠ 0 := hs
    simp only [lookup_of_ne hs, hpair, release_acquired hrc]
    exact ⟨_, rfl⟩

lemma fdAllowDups_eq (child : ℕ) (fd : Stream → ℕ) (L : List Stream) (s : State) :
    ∃ acl, L.foldl (fun s t => fdAllowDup s (fd t) child) s = { s with acl := acl } := by
  induction L generalizing s with
  | nil => exact ⟨s.acl, rfl⟩
  | cons t L ih =>
    obtain ⟨acl, hacl⟩ := fdAllowDup_eq s (fd t) child
    obtain ⟨acl', hacl'⟩ := ih (fdAllowDup s (fd t) child)
    exact ⟨acl', by rw [List.foldl_cons, hacl', hacl]⟩

/-- The references that a new process gets. -/
def started (s : State) (fd : Stream → ℕ) : List ℕ :=
  (streams.filter fun t => s.rc (fd t) ≠ 0).map fd

/-- What `syscall_process_start` leaves behind. -/
structure Started (s s' : State) : Prop where
  processCount : s'.processCount = s.processCount + 1
  count : s'.count = s.count
  alive : ∀ p, s'.alive p = true → s.alive p = true ∨ p = s.processCount
  refs : ∀ p, p ≠ s.processCount → s'.refs p = s.refs p
  rc : ∀ h, s'.rc h = s.rc h + (s'.refs s.processCount).count h
  live : ∀ h ∈ s'.refs s.processCount, s.rc h ≠ 0

lemma syscallProcessStart_spec (s : State) (p : ℕ) (std : Stream → ℕ) :
    Started s (syscallProcessStart s p std true) := by
  set child := s.processCount with hchild
  set fd : Stream → ℕ := fun t => if std t ≠ 0 then std t else s.fdStd p t with hfd
  set s₁ : State := { s with processCount := child + 1
                             alive := Function.update s.alive child true
                             handleList := Function.update s.handleList child []
                             fdStd := Function.update s.fdStd child fd
                             fdHeld := Function.update s.fdHeld child fun _ => false } with hs₁
  obtain ⟨held, heq, hother, hheld⟩ := startStreams child streams s₁
  obtain ⟨acl, hacl⟩ := fdAllowDups_eq child fd streams (streams.foldl (startStream child) s₁)
  have hs' : syscallProcessStart s p std true =
      streams.foldl (fun s t => fdAllowDup s (fd t) child) (streams.foldl (startStream child) s₁) :=
    rfl
  have hstd : s₁.fdStd child = fd := Function.update_self ..
  have hrefs : (syscallProcessStart s p std true).refs child = started s fd := by
    rw [hs', hacl, heq]
    have hheld' : held child = fun t => decide (s.rc (fd t) ≠ 0) := by
      funext t
      rw [hheld, if_pos (mem_streams t), hstd]
    simp only [State.refs, hheld', hs₁, Function.update_self, List.nil_append]
    rfl
  refine ⟨?_, ?_, fun q hq => ?_, fun q hq => ?_, fun h => ?_, fun h hm => ?_⟩
  · rw [hs', hacl, heq]
  · rw [hs', hacl, heq]
  · rw [hs', hacl, heq] at hq
    by_cases hqc : q = child
    · exact .inr hqc
    · left
      have hq' : Function.update s.alive child true q = true := hq
      rwa [Function.update_of_ne hqc] at hq'
  · have hqc : q ≠ child := hq
    rw [hs', hacl, heq]
    simp only [State.refs, hother q hqc, hs₁, Function.update_of_ne hqc]
  · rw [hrefs, hs', hacl, heq]
    simp only [hs₁, Function.update_self]
    rfl
  · rw [hrefs] at hm
    obtain ⟨t, ht, rfl⟩ := List.mem_map.mp hm
    exact of_decide_eq_true (List.mem_filter.mp ht).2

lemma Started.wellFormed (h : Started s s') (hs : WellFormed s) : WellFormed s' := by
  refine ⟨fun p hp => ?_, fun k hk => ?_, fun p k hk => ?_⟩
  · rw [h.processCount]
    rcases h.alive p hp with hp | rfl
    · exact Nat.lt_succ_of_lt (hs.alive_lt p hp)
    · exact Nat.lt_succ_self _
  · rw [h.count] at hk
    have hzero := hs.fresh k hk
    rw [h.rc, hzero, Nat.zero_add, List.count_eq_zero]
    exact fun hm => h.live k hm hzero
  · rw [h.count]
    by_cases hp : p = s.processCount
    · subst hp
      by_contra hlt
      exact h.live k hk (hs.fresh k (Nat.le_of_not_lt hlt))
    · rw [h.refs p hp] at hk
      exact hs.refs_lt p k hk

lemma Started.balanced (h : Started s s') (hb : s.Balanced) : s'.Balanced := by
  intro k
  unfold State.holders
  rw [h.rc, hb k, h.processCount, Finset.sum_range_succ, State.holders]
  congr 1
  exact Finset.sum_congr rfl fun p hp => by rw [h.refs p (Finset.mem_range.mp hp).ne]

/-! ### The end of a process -/

/-- What the end of a process leaves behind. -/
structure Ended (s s' : State) (p : ℕ) : Prop where
  processCount : s'.processCount = s.processCount
  count : s'.count = s.count
  alive : ∀ q, s'.alive q = true → s.alive q = true
  refs : ∀ q, q ≠ p → s'.refs q = s.refs q
  none : s'.refs p = []
  rc : ∀ h, s'.rc h = s.rc h - (streams.map (s.fdStd p)).count h - (s.handleList p).count h

lemma processHandleDestructor_spec (s : State) (p : ℕ) :
    Ended s (processHandleDestructor s p) p := by
  obtain ⟨acl, hacl⟩ := drops_eq (streams.map (s.fdStd p)) s
  have hstreams : streams.foldl (fun s t => fdUnref s (s.fdStd p t)) s =
      (streams.map (s.fdStd p)).foldl drop s := by
    have hframe : ∀ (s : State) h, (drop s h).fdStd = s.fdStd := by
      intro s h
      unfold drop
      split_ifs <;> rfl
    simp only [fdUnref_eq, streams, List.foldl_cons, List.foldl_nil, List.map_cons, List.map_nil,
      hframe]
  have hentry : handleListDestroyEntry = drop := by
    funext s h
    exact handleListDestroyEntry_eq s h
  obtain ⟨acl', hacl'⟩ := drops_eq (s.handleList p)
    { s with rc := fun h => s.rc h - (streams.map (s.fdStd p)).count h
             acl := acl
             handleList := Function.update s.handleList p [] }
  have hs' : processHandleDestructor s p =
      { s with rc := fun h => s.rc h - (streams.map (s.fdStd p)).count h - (s.handleList p).count h
               acl := acl'
               handleList := Function.update s.handleList p []
               alive := Function.update s.alive p false
               fdHeld := Function.update s.fdHeld p fun _ => false } := by
    unfold processHandleDestructor handleListDestroy
    rw [hstreams, hacl, hentry]
    simp only [hacl']
  rw [hs']
  refine ⟨rfl, rfl, fun q hq => ?_, fun q hq => ?_, ?_, fun _ => rfl⟩
  · by_cases hqp : q = p
    · subst hqp
      have hq' : Function.update s.alive q false q = true := hq
      rw [Function.update_self] at hq'
      cases hq'
    · have hq' : Function.update s.alive p false q = true := hq
      rwa [Function.update_of_ne hqp] at hq'
  · simp only [State.refs, Function.update_of_ne hq]
  · simp [State.refs]

lemma Ended.wellFormed (h : Ended s s' p) (hs : WellFormed s) : WellFormed s' := by
  refine ⟨fun q hq => ?_, fun k hk => ?_, fun q k hk => ?_⟩
  · rw [h.processCount]
    exact hs.alive_lt q (h.alive q hq)
  · rw [h.count] at hk
    rw [h.rc, hs.fresh k hk, Nat.zero_sub, Nat.zero_sub]
  · rw [h.count]
    by_cases hq : q = p
    · subst hq
      rw [h.none] at hk
      cases hk
    · rw [h.refs q hq] at hk
      exact hs.refs_lt q k hk

/-- **The end of a process keeps the balance** just when no stream without a reference names a
descriptor of others. -/
lemma Ended.balanced_iff (h : Ended s s' p) (hb : s.Balanced) (hp : p < s.processCount) :
    s'.Balanced ↔ ∀ t, s.fdHeld p t = false → s.rc (s.fdStd p t) ≠ 0 →
      s.rc (s.fdStd p t) ≤ (s.refs p).count (s.fdStd p t) := by
  have hchange := holders_change hp h.processCount h.refs
  simp only [h.none, List.count_nil, Nat.add_zero] at hchange
  -- the references to a handle that the end drops, and those that the process has
  have hdropped : ∀ k, (streams.map (s.fdStd p)).count k + (s.handleList p).count k =
      (s.refs p).count k + ((streams.filter fun t => !s.fdHeld p t).map (s.fdStd p)).count k := by
    intro k
    rw [State.refs, List.count_append]
    have hsplit : ∀ L : List Stream, (L.map (s.fdStd p)).count k =
        ((L.filter (s.fdHeld p)).map (s.fdStd p)).count k +
          ((L.filter fun t => !s.fdHeld p t).map (s.fdStd p)).count k := by
      intro L
      induction L with
      | nil => rfl
      | cons t L ih =>
        cases ht : s.fdHeld p t
        · simp [ht, List.count_cons, ih]
          omega
        · simp [ht, List.count_cons, ih]
          omega
    rw [hsplit]
    omega
  constructor
  · intro hb' t ht hlive
    have hk := hb' (s.fdStd p t)
    rw [h.rc, Nat.sub_sub, hdropped] at hk
    have hpos : 0 < ((streams.filter fun t => !s.fdHeld p t).map (s.fdStd p)).count
        (s.fdStd p t) :=
      List.count_pos_iff.mpr
        (List.mem_map_of_mem (List.mem_filter.mpr ⟨mem_streams t, by simp [ht]⟩))
    have hold := hb (s.fdStd p t)
    have hch := hchange (s.fdStd p t)
    omega
  · intro hall k
    rw [h.rc, Nat.sub_sub, hdropped]
    have hold := hb k
    have hch := hchange k
    by_cases hm : k ∈ (streams.filter fun t => !s.fdHeld p t).map (s.fdStd p)
    · obtain ⟨t, ht, rfl⟩ := List.mem_map.mp hm
      have hfree : s.fdHeld p t = false := by simpa using (List.mem_filter.mp ht).2
      by_cases hlive : s.rc (s.fdStd p t) = 0
      · omega
      · have hle := hall t hfree hlive
        omega
    · rw [List.count_eq_zero.mpr hm]
      omega

/-! ### Runs -/

lemma wellFormed_init : WellFormed .init := by
  refine ⟨fun p hp => ?_, fun _ _ => rfl, fun p h hm => ?_⟩
  · have hp0 : p = 0 := of_decide_eq_true hp
    exact hp0 ▸ Nat.one_pos
  · simp [State.refs, State.init] at hm

lemma balanced_init : State.Balanced .init := by
  intro h
  simp [State.holders, State.refs, State.init]

lemma step_eq_some {op : Op} (hstep : step s op = some s') :
    s.alive op.process = true ∧ s' = s.apply op := by
  unfold step at hstep
  split_ifs at hstep with ha
  exact ⟨ha, (Option.some.inj hstep).symm⟩

lemma WellFormed.step (hs : WellFormed s) {op : Op} (hstep : Fd.step s op = some s') :
    WellFormed s' := by
  obtain ⟨-, rfl⟩ := step_eq_some hstep
  cases op with
  | fdOpen p root found =>
    rcases syscallFdOpen_cases s p root found with he | he <;> simp only [State.apply, he]
    · exact hs
    · exact hs.fdFromNode
  | fdDup p fd =>
    rcases hs.syscallFdDup p fd with he | he <;> simp only [State.apply, he]
    · exact hs
    · exact hs.fdFromNode
  | fdClose p fd =>
    rcases syscallFdClose_cases s p fd with ⟨-, he⟩ | ⟨-, he⟩ <;> simp only [State.apply, he]
    · exact hs
    · exact hs.close p fd
  | processStart p std loaded =>
    cases loaded
    · exact hs
    · exact (syscallProcessStart_spec s p std).wellFormed hs
  | processEnd p => exact (processHandleDestructor_spec s p).wellFormed hs

lemma WellFormed.balanced_step (hs : WellFormed s) (hb : s.Balanced) {op : Op}
    (hstep : Fd.step s op = some s') : s'.Balanced ↔ Owned s op := by
  obtain ⟨halive, rfl⟩ := step_eq_some hstep
  have hp := hs.alive_lt _ halive
  cases op with
  | fdOpen p root found =>
    rcases syscallFdOpen_cases s p root found with he | he <;> simp only [State.apply, he]
    · exact iff_of_true hb trivial
    · exact iff_of_true (hs.balanced_fdFromNode hb hp) trivial
  | fdDup p fd =>
    rcases hs.syscallFdDup p fd with he | he <;> simp only [State.apply, he]
    · exact iff_of_true hb trivial
    · exact iff_of_true (hs.balanced_fdFromNode hb hp) trivial
  | fdClose p fd =>
    rcases syscallFdClose_cases s p fd with ⟨hno, he⟩ | ⟨⟨hfd, hacl⟩, he⟩ <;>
      simp only [State.apply, he]
    · exact iff_of_true hb fun _ hfd hacl => absurd ⟨hfd, hacl⟩ hno
    · have hpc : p < s.processCount := hp
      rw [balanced_close hb hpc hfd]
      exact ⟨fun hm _ _ _ => hm, fun h => h halive hfd hacl⟩
  | processStart p std loaded =>
    cases loaded
    · exact iff_of_true hb trivial
    · exact iff_of_true ((syscallProcessStart_spec s p std).balanced hb) trivial
  | processEnd p =>
    rw [State.apply, (processHandleDestructor_spec s p).balanced_iff hb hp]
    exact ⟨fun h _ => h, fun h => h halive⟩

lemma owned_of_refused {op : Op} (hstep : step s op = none) : Owned s op := by
  unfold step at hstep
  split_ifs at hstep with ha
  cases op with
  | fdOpen | fdDup | processStart => trivial
  | fdClose p fd => exact fun halive => absurd halive ha
  | processEnd p => exact fun halive => absurd halive ha

/-- A close of the caller's own handle drops only the reference of its list. -/
lemma closesOwn_of_owned {op : Op} (h : Owned s op) : ClosesOwn s op := by
  cases op with
  | fdOpen | fdDup | processStart | processEnd => trivial
  | fdClose p fd =>
    intro halive k
    rcases syscallFdClose_cases s p fd with ⟨-, he⟩ | ⟨⟨hfd, hacl⟩, he⟩
    · rw [he]
      exact Nat.le_add_right _ _
    · have hpos := List.count_pos_iff.mpr (h halive hfd hacl)
      have hrc : (handleRelease (handleListPop s p fd) fd).rc k =
          s.rc k - if fd = k then 1 else 0 := rc_release _ _ _
      rw [he, hrc]
      split_ifs with hk
      · subst hk
        omega
      · omega

lemma State.Balanced.live (hb : s.Balanced) (hp : p < s.processCount) (hm : h ∈ s.refs p) :
    s.rc h ≠ 0 := by
  have hpos := List.count_pos_iff.mpr hm
  have hle := count_refs_le hp h
  rw [hb h]
  omega

/-- **References of descriptors.** In every state of a run the counts are the numbers of holders
and what a process refers to is there, and every close drops at most the reference of the
caller's list, exactly when all closes that are not refused are of handles in the caller's list
and no process ends with a stream that names, without a reference, a descriptor of others. -/
theorem balanced_iff_owned (ops : List Op) :
    ((∀ before, before <+: ops → ∀ s, run step .init before = some s →
        s.Balanced ∧ ∀ p < s.processCount, ∀ h ∈ s.refs p, s.rc h ≠ 0) ∧
      Along step ClosesOwn .init ops) ↔ Along step Owned .init ops := by
  have hiff : (∀ before, before <+: ops → ∀ s, run step .init before = some s → s.Balanced) ↔
      Along step Owned .init ops := along_iff (I := WellFormed) (P := State.Balanced)
    (fun _ _ _ hs hstep => hs.step hstep)
    (fun _ _ _ hs hb hstep => hs.balanced_step hb hstep) (fun _ _ => owned_of_refused)
    ops .init wellFormed_init balanced_init
  constructor
  · rintro ⟨hall, -⟩
    exact hiff.mp fun before hpre s hs => (hall before hpre s hs).1
  · intro hok
    refine ⟨fun before hpre s hs => ?_, ?_⟩
    · have hb := hiff.mpr hok before hpre s hs
      exact ⟨hb, fun p hp h hm => hb.live hp hm⟩
    · exact along_of_inv (I := fun _ => True) (fun _ _ _ _ _ _ => trivial)
        (fun _ _ _ h => closesOwn_of_owned h) ops State.init trivial hok

/-- A process opens a descriptor, starts a child with it as standard input, and closes it twice. -/
def closedTwice : List Op :=
  [.fdOpen 0 0 true, .processStart 0 (fun t => if t = .stdin then 1 else 0) true, .fdClose 0 1,
    .fdClose 0 1]

/-- The second close takes the reference of the child. -/
theorem close_takes_reference : ¬∀ (ops : List Op) (s : State),
    run step State.init ops = some s → s.Balanced := by
  intro h
  have hrun : ∃ s, run step .init closedTwice = some s ∧ s.rc 1 = 0 ∧ s.holders 1 = 1 := by
    refine ⟨_, rfl, ?_, ?_⟩ <;> decide
  obtain ⟨s, hs, hrc, hholders⟩ := hrun
  have hb := h closedTwice s hs 1
  omega

end KernelModel.Fd
