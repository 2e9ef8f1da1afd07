import KernelModel.DoublyLinked
import KernelModel.Runs

/-!
The thread list of a process, and the calls that remove its threads.

A removal is cut at the accesses that others can see: its lock, its two changes of pointers, and
the read of the head after the lock is released. The lock lets one call in at a time.
-/

namespace KernelModel.Threads

open DoublyLinked Runs

variable {τ : Type*} [DecidableEq τ]

/-! ### The list -/

structure ThreadList (τ : Type*) where
  head : Option τ
  threadListNext : τ → Option τ
  threadListPrev : τ → Option τ

/-- `thread_list_init`; the pointers of a thread that is not in the list are arbitrary. -/
def threadListInit (threadListNext threadListPrev : τ → Option τ) : ThreadList τ :=
  ⟨none, threadListNext, threadListPrev⟩

def threadListAdd (threads : ThreadList τ) (t : τ) : ThreadList τ where
  head := some t
  threadListNext := Function.update threads.threadListNext t threads.head
  threadListPrev := fun u =>
    if threads.head = some u then some t else if u = t then none else threads.threadListPrev u

/-! ### Removals -/

/-- What a call of `thread_list_remove` does next. -/
inductive Pc
  /-- there is no call for the thread -/
  | absent
  /-- before the lock is acquired -/
  | acquire
  /-- before the pointer to the thread is changed -/
  | unlinkNext
  /-- before the pointer back to the thread is changed -/
  | unlinkPrev
  | release
  /-- before the head is read, without the lock -/
  | read
  | done (empty : Bool)
  deriving DecidableEq

structure State (τ : Type*) where
  threads : ThreadList τ
  holder : Option τ
  pc : τ → Pc

def State.goto (s : State τ) (t : τ) (pc : Pc) : State τ :=
  { s with pc := Function.update s.pc t pc }

/-- The next step of the call for a thread. -/
def step (s : State τ) (t : τ) : Option (State τ) :=
  match s.pc t with
  | .absent => none
  | .acquire =>
    if s.holder = none then some { s.goto t .unlinkNext with holder := some t } else none
  | .unlinkNext =>
    let next := s.threads.threadListNext t
    some { s.goto t .unlinkPrev with
      threads :=
        match s.threads.threadListPrev t with
        | some u =>
          { s.threads with
            threadListNext := Function.update s.threads.threadListNext u next }
        | none => { s.threads with head := next } }
  | .unlinkPrev =>
    let prev := s.threads.threadListPrev t
    some { s.goto t .release with
      threads :=
        match s.threads.threadListNext t with
        | some u =>
          { s.threads with
            threadListPrev := Function.update s.threads.threadListPrev u prev }
        | none => s.threads }
  | .release => some { s.goto t .read with holder := none }
  | .read => some (s.goto t (.done (s.threads.head = none)))
  | .done _ => none

/-- The threads of a process, added one after the other, are all to be removed. -/
def State.init (threads : ThreadList τ) (l : List τ) : State τ where
  threads := l.foldl threadListAdd threads
  holder := none
  pc t := if t ∈ l then .acquire else .absent

/-- The next step of the call leaves the list empty. -/
def Empties (s : State τ) (t : τ) : Prop :=
  s.pc t = .unlinkNext ∧ s.threads.threadListPrev t = none ∧ s.threads.threadListNext t = none

/-- The list is not left empty while another call is about to read the head. -/
def Apart (s : State τ) (t : τ) : Prop := Empties s t → ∀ u, s.pc u ≠ .read

/-! ### The invariant -/

/-- The thread is in the list, as the pointers back see it. -/
def Pc.linked : Pc → Bool
  | .acquire | .unlinkNext | .unlinkPrev => true
  | _ => false

/-- The call has the lock. -/
def Pc.locks : Pc → Bool
  | .unlinkNext | .unlinkPrev | .release => true
  | _ => false

/-- The pointers of a list, as they are while the pointer to a thread has been changed and the
pointer back has not. -/
structure HalfRemoved (t : τ) (threads : ThreadList τ) (head : Option τ) (next : τ → Option τ) :
    Prop where
  head_eq : threads.head = if threads.threadListPrev t = none then next t else head
  next_eq : ∀ u, threads.threadListNext u =
    if threads.threadListPrev t = some u then next t else next u

/-- The list of the threads that `linked` holds of, from the side of the pointers back. -/
def Holds (threads : ThreadList τ) (pc : τ → Pc) : Prop :=
  ∃ l head next tail, l.Nodup ∧ (∀ t, t ∈ l ↔ (pc t).linked = true) ∧
    Linked next threads.threadListPrev head tail l ∧
    ((∀ t, pc t ≠ .unlinkPrev) → threads.head = head ∧ threads.threadListNext = next) ∧
    ∀ t, pc t = .unlinkPrev → HalfRemoved t threads head next

structure Inv (s : State τ) : Prop where
  locks : ∀ t, (s.pc t).locks = true ↔ s.holder = some t
  holds : Holds s.threads s.pc
  told : ∀ t, s.pc t = .done true → s.threads.head = none

variable {s s' : State τ} {t u : τ} {pc pc' : τ → Pc} {threads threads' : ThreadList τ}

lemma Inv.head_eq_none_iff (h : Inv s) :
    s.threads.head = none ↔ ∀ t, s.pc t ≠ .acquire ∧ s.pc t ≠ .unlinkNext := by
  obtain ⟨l, head, next, tail, hnodup, hmem, hlinked, hwhole, hhalf⟩ := h.holds
  by_cases hany : ∃ t, s.pc t = .unlinkPrev
  · obtain ⟨t, ht⟩ := hany
    obtain ⟨A, B, rfl⟩ := List.append_of_mem ((hmem t).mpr (by rw [ht]; rfl))
    obtain ⟨hprev, hnext⟩ := hlinked.at
    have hhead := (hhalf t ht).head_eq
    have hother : ∀ u, s.pc u = .unlinkPrev → u = t := by
      intro u hu
      have hholder := (h.locks t).mp (by rw [ht]; rfl)
      rw [(h.locks u).mp (by rw [hu]; rfl)] at hholder
      exact Option.some.inj hholder
    rw [hhead]
    constructor
    · intro hnone
      have hA : A = [] := by
        by_contra hA
        rw [hprev, if_neg (by simpa using hA), hlinked.head_eq] at hnone
        simp at hnone
      rw [hprev, hA, if_pos (by rfl), hnext, List.head?_eq_none_iff] at hnone
      subst hA hnone
      intro u
      refine ⟨fun hu => ?_, fun hu => ?_⟩
      · obtain rfl : u = t := by simpa using (hmem u).mpr (by rw [hu]; rfl)
        rw [hu] at ht
        cases ht
      · obtain rfl : u = t := by simpa using (hmem u).mpr (by rw [hu]; rfl)
        rw [hu] at ht
        cases ht
    · intro hall
      have honly : ∀ u ∈ A ++ t :: B, u = t := by
        intro u hu
        have hlink := (hmem u).mp hu
        refine hother u ?_
        have := hall u
        cases hpc : s.pc u <;> simp_all [Pc.linked]
      have hA : A = [] := by
        refine List.eq_nil_iff_forall_not_mem.mpr fun u hu => ?_
        obtain rfl := honly u (by simp [hu])
        exact (List.nodup_append'.mp hnodup).2.2 hu (by simp)
      have hB : B = [] := by
        refine List.eq_nil_iff_forall_not_mem.mpr fun u hu => ?_
        obtain rfl := honly u (by simp [hu])
        exact (List.nodup_cons.mp (List.nodup_append'.mp hnodup).2.1).1 hu
      subst hA hB
      rw [hprev, hnext]
      rfl
  · have hnone : ∀ t, s.pc t ≠ .unlinkPrev := fun t ht => hany ⟨t, ht⟩
    rw [(hwhole hnone).1, hlinked.head_eq, List.head?_eq_none_iff]
    constructor
    · rintro rfl t
      refine ⟨fun ht => ?_, fun ht => ?_⟩
      · exact List.not_mem_nil ((hmem t).mpr (by rw [ht]; rfl))
      · exact List.not_mem_nil ((hmem t).mpr (by rw [ht]; rfl))
    · intro hall
      refine List.eq_nil_iff_forall_not_mem.mpr fun t ht => ?_
      have hlink := (hmem t).mp ht
      have := hall t
      have := hnone t
      cases hpc : s.pc t <;> simp_all [Pc.linked]

/-! ### One step -/

lemma Holds.goto (h : Holds threads pc) {p' : Pc} (hlinked : p'.linked = (pc t).linked)
    (hpc : pc t ≠ .unlinkPrev) (hp' : p' ≠ .unlinkPrev) :
    Holds threads (Function.update pc t p') := by
  obtain ⟨l, head, next, tail, hnodup, hmem, hlist, hwhole, hhalf⟩ := h
  have hsame : ∀ u, Function.update pc t p' u = .unlinkPrev ↔ pc u = .unlinkPrev := by
    intro u
    by_cases hu : u = t
    · subst hu
      rw [Function.update_self]
      exact iff_of_false hp' hpc
    · rw [Function.update_of_ne hu]
  refine ⟨l, head, next, tail, hnodup, fun u => ?_, hlist, fun hnone => hwhole fun u => ?_,
    fun u hu => hhalf u ((hsame u).mp hu)⟩
  · rw [hmem]
    by_cases hu : u = t
    · subst hu
      rw [Function.update_self, hlinked]
    · rw [Function.update_of_ne hu]
  · exact fun hu => hnone u ((hsame u).mpr hu)

lemma Holds.unlinkNext (h : Holds threads pc) (hnone : ∀ u, pc u ≠ .unlinkPrev)
    (hpc : pc t = .unlinkNext) (hhalf : HalfRemoved t threads' threads.head threads.threadListNext)
    (hprev : threads'.threadListPrev = threads.threadListPrev) :
    Holds threads' (Function.update pc t .unlinkPrev) := by
  obtain ⟨l, head, next, tail, hnodup, hmem, hlist, hwhole, -⟩ := h
  obtain ⟨rfl, rfl⟩ := hwhole hnone
  refine ⟨l, threads.head, threads.threadListNext, tail, hnodup, fun u => ?_, hprev ▸ hlist,
    fun hno => ?_, fun u hu => ?_⟩
  · rw [hmem]
    by_cases hu : u = t
    · subst hu
      rw [Function.update_self, hpc]
      rfl
    · rw [Function.update_of_ne hu]
  · exact absurd (Function.update_self t .unlinkPrev pc) (hno t)
  · by_cases hut : u = t
    · exact hut ▸ hhalf
    · rw [Function.update_of_ne hut] at hu
      exact absurd hu (hnone u)

lemma Holds.unlinkPrev (h : Holds threads pc) (hpc : pc t = .unlinkPrev)
    (honly : ∀ u, pc u = .unlinkPrev → u = t)
    (hhead : threads'.head = threads.head)
    (hnext : threads'.threadListNext = threads.threadListNext)
    (hprev : ∀ u, threads'.threadListPrev u =
      if threads.threadListNext t = some u then threads.threadListPrev t
      else threads.threadListPrev u) :
    Holds threads' (Function.update pc t .release) := by
  obtain ⟨l, head, next, tail, hnodup, hmem, hlist, -, hhalf⟩ := h
  obtain ⟨A, B, rfl⟩ := List.append_of_mem ((hmem t).mpr (by rw [hpc]; rfl))
  obtain ⟨hprevt, hnextt⟩ := hlist.at
  have hsplit := List.nodup_append'.mp hnodup
  have hnextself : threads.threadListNext t = next t := by
    rw [(hhalf t hpc).next_eq t, if_neg]
    rw [hprevt]
    exact fun hlast => hsplit.2.2 (List.mem_of_getLast? hlast) (by simp)
  rw [hnextself] at hprev
  refine ⟨A ++ B, threads.head, threads.threadListNext, _, ?_, fun u => ?_,
    (hhalf t hpc).head_eq ▸ hlist.remove hnodup (fun u _ => (hhalf t hpc).next_eq u)
      (fun u _ => hprev u), fun _ => ⟨hhead, hnext⟩, fun u hu => ?_⟩
  · exact (List.nodup_cons.mp (List.nodup_middle.mp hnodup)).2
  · have hnot : t ∉ A ++ B := by
      intro ht
      exact (List.nodup_middle.mp hnodup |> List.nodup_cons.mp).1 ht
    by_cases hu : u = t
    · subst hu
      rw [Function.update_self]
      exact iff_of_false hnot (by decide)
    · rw [Function.update_of_ne hu, ← hmem]
      simp [hu]
  · by_cases hut : u = t
    · rw [hut, Function.update_self] at hu
      cases hu
    · rw [Function.update_of_ne hut] at hu
      exact absurd (honly u hu) hut

/-- The calls of other threads are where they were, and one that has the lock is the only one. -/
lemma Inv.only (h : Inv s) (ht : (s.pc t).locks = true) (hu : (s.pc u).locks = true) : u = t := by
  have hholder := (h.locks t).mp ht
  rw [(h.locks u).mp hu] at hholder
  exact Option.some.inj hholder

lemma locks_goto (h : Inv s) {p' : Pc} {holder' : Option τ}
    (hpast : (s.pc t).locks = true ∨ s.holder = none)
    (hholder : holder' = if p'.locks = true then some t else none) :
    ∀ u, (Function.update s.pc t p' u).locks = true ↔ holder' = some u := by
  intro u
  by_cases hu : u = t
  · subst hu
    rw [Function.update_self, hholder]
    split_ifs with hlocks
    · simp [hlocks]
    · simp [hlocks]
  · have hnot : ¬(s.pc u).locks = true := by
      intro hlocks
      rcases hpast with hpast | hpast
      · exact hu (h.only hpast hlocks)
      · rw [(h.locks u).mp hlocks] at hpast
        cases hpast
    rw [Function.update_of_ne hu, hholder]
    refine iff_of_false hnot ?_
    split_ifs
    · exact fun heq => hu (Option.some.inj heq).symm
    · simp

lemma told_goto (h : Inv s) {p' : Pc} {head' : Option τ} (hp' : p' = .done true → head' = none)
    (hhead : s.threads.head = none → head' = none) :
    ∀ u, Function.update s.pc t p' u = .done true → head' = none := by
  intro u hu
  by_cases hut : u = t
  · subst hut
    exact hp' (Function.update_self u p' s.pc ▸ hu)
  · rw [Function.update_of_ne hut] at hu
    exact hhead (h.told u hu)

/-- While a call has the lock in front of its first change, the list is not empty. -/
lemma Inv.head_ne_none (h : Inv s) (hpc : s.pc t = .unlinkNext) : s.threads.head ≠ none :=
  fun hnone => (h.head_eq_none_iff.mp hnone t).2 hpc

lemma step_inv (h : Inv s) (hs : step s t = some s') : Inv s' := by
  rw [step] at hs
  split at hs
  · cases hs
  · next hpc =>
    split at hs
    · next hholder =>
      cases hs
      exact ⟨locks_goto h (.inr hholder) rfl, h.holds.goto (by rw [hpc]; rfl) (by simp [hpc])
        (by simp), told_goto h nofun id⟩
    · cases hs
  · next hpc =>
    have hlocks : (s.pc t).locks = true := by rw [hpc]; rfl
    have hnone : ∀ u, s.pc u ≠ .unlinkPrev := by
      intro u hu
      have hut := h.only hlocks (show (s.pc u).locks = true by rw [hu]; rfl)
      rw [hut, hpc] at hu
      cases hu
    cases hs
    refine ⟨locks_goto h (.inl hlocks) ((h.locks t).mp hlocks), ?_,
      told_goto h nofun fun hhead => absurd hhead (h.head_ne_none hpc)⟩
    rcases hprev : s.threads.threadListPrev t with _ | v
    · refine h.holds.unlinkNext hnone hpc ⟨?_, fun u => ?_⟩ rfl
      · simp [hprev]
      · simp [hprev]
    · refine h.holds.unlinkNext hnone hpc ⟨?_, fun u => ?_⟩ rfl
      · simp [hprev]
      · simp only [hprev, Function.update_apply, Option.some.injEq, eq_comm]
  · next hpc =>
    have hlocks : (s.pc t).locks = true := by rw [hpc]; rfl
    have honly : ∀ u, s.pc u = .unlinkPrev → u = t :=
      fun u hu => h.only hlocks (by rw [hu]; rfl)
    cases hs
    rcases hnext : s.threads.threadListNext t with _ | v
    · exact ⟨locks_goto h (.inl hlocks) ((h.locks t).mp hlocks),
        h.holds.unlinkPrev hpc honly rfl rfl (fun u => by simp [hnext]), told_goto h nofun id⟩
    · refine ⟨locks_goto h (.inl hlocks) ((h.locks t).mp hlocks),
        h.holds.unlinkPrev hpc honly rfl rfl fun u => ?_, told_goto h nofun id⟩
      simp only [hnext, Function.update_apply, Option.some.injEq, eq_comm]
  · next hpc =>
    cases hs
    exact ⟨locks_goto h (.inl (by rw [hpc]; rfl)) rfl, h.holds.goto (by rw [hpc]; rfl)
      (by simp [hpc]) (by simp), told_goto h nofun id⟩
  · next hpc =>
    cases hs
    refine ⟨fun u => ?_, h.holds.goto (by rw [hpc]; rfl) (by simp [hpc]) (by simp),
      told_goto h (fun hdone => show s.threads.head = none by simpa using hdone) id⟩
    change (Function.update s.pc t (.done _) u).locks = true ↔ s.holder = some u
    by_cases hu : u = t
    · subst hu
      rw [Function.update_self, ← h.locks u, hpc]
      rfl
    · rw [Function.update_of_ne hu]
      exact h.locks u
  · cases hs

/-! ### Who is told that the list is empty -/

/-- The call has changed the list, and has not yet read the head. -/
def Pc.past : Pc → Bool
  | .unlinkPrev | .release | .read => true
  | _ => false

/-- The call has been told that the list is empty, or will be. -/
def State.Told (s : State τ) (t : τ) : Prop :=
  s.pc t = .done true ∨ s.threads.head = none ∧ (s.pc t).past = true

lemma Inv.not_told (h : Inv s) (hhead : s.threads.head ≠ none) : ¬s.Told t := by
  rintro (hdone | htold)
  · exact hhead (h.told t hdone)
  · exact hhead htold.1

/-- A step that leaves the head alone, and takes no call into those that will be told. -/
lemma told_iff (h : Inv s) (hhead : s'.threads.head = s.threads.head) {p' : Pc}
    (hpc' : s'.pc = Function.update s.pc t p')
    (hsame : s.threads.head = none → ((p' = .done true ∨ p'.past = true) ↔
      (s.pc t = .done true ∨ (s.pc t).past = true)))
    (hdone : p' = .done true → s.threads.head = none) : s'.Told u ↔ s.Told u := by
  rw [State.Told, State.Told, hhead, hpc']
  by_cases hnone : s.threads.head = none
  · simp only [hnone, true_and]
    by_cases hu : u = t
    · subst hu
      rw [Function.update_self]
      exact hsame hnone
    · rw [Function.update_of_ne hu]
  · refine iff_of_false ?_ (h.not_told hnone)
    rintro (htold | htold)
    · by_cases hu : u = t
      · subst hu
        exact hnone (hdone (Function.update_self u p' s.pc ▸ htold))
      · rw [Function.update_of_ne hu] at htold
        exact hnone (h.told u htold)
    · exact hnone htold.1

/-- What a step does to those who are told: nothing, unless it empties the list. -/
lemma step_told (h : Inv s) (hs : step s t = some s') :
    (¬Empties s t ∧ (∀ u, s'.Told u ↔ s.Told u) ∧
        (s'.threads.head = none → s.threads.head = none)) ∨
      Empties s t ∧ ∀ u, s'.Told u ↔ u = t ∨ s.pc u = .read := by
  have hother (hne : s.pc t ≠ .unlinkNext) : ¬Empties s t := fun hempties => hne hempties.1
  rw [step] at hs
  split at hs
  · cases hs
  · next hpc =>
    split at hs
    · cases hs
      exact .inl ⟨hother (by simp [hpc]),
        fun u => told_iff h rfl rfl (fun _ => by simp [hpc, Pc.past]) nofun, id⟩
    · cases hs
  · next hpc =>
    have hne := h.head_ne_none hpc
    have hlocks : (s.pc t).locks = true := by rw [hpc]; rfl
    cases hs
    rcases hprev : s.threads.threadListPrev t with _ | v
    · rcases hnext : s.threads.threadListNext t with _ | v
      · refine .inr ⟨⟨hpc, hprev, hnext⟩, fun u => ?_⟩
        by_cases hu : u = t
        · subst hu
          simp [State.Told, State.goto, Pc.past]
        · have hdone : s.pc u ≠ .done true := fun hdone => hne (h.told u hdone)
          have hout : (s.pc u).locks = false := by
            by_contra hlock
            exact hu (h.only hlocks (by simpa using hlock))
          simp only [State.Told, State.goto, Function.update_of_ne hu, hdone, false_or,
            true_and, hu]
          cases hpcu : s.pc u <;> simp_all [Pc.past, Pc.locks]
      · refine .inl ⟨fun hempties => by simp [hempties.2.2] at hnext,
          fun u => iff_of_false ?_ (h.not_told hne), nofun⟩
        rintro (hdone | htold)
        · by_cases hu : u = t
          · subst hu
            simp [State.goto] at hdone
          · simp only [State.goto, Function.update_of_ne hu] at hdone
            exact hne (h.told u hdone)
        · cases htold.1
    · exact .inl ⟨fun hempties => by simp [hempties.2.1] at hprev,
        fun u => told_iff h rfl rfl (fun hnone => absurd hnone hne) nofun, id⟩
  · next hpc =>
    cases hs
    rcases s.threads.threadListNext t with _ | v
    · exact .inl ⟨hother (by simp [hpc]),
        fun u => told_iff h rfl rfl (fun _ => by simp [hpc, Pc.past]) nofun, id⟩
    · exact .inl ⟨hother (by simp [hpc]),
        fun u => told_iff h rfl rfl (fun _ => by simp [hpc, Pc.past]) nofun, id⟩
  · next hpc =>
    cases hs
    exact .inl ⟨hother (by simp [hpc]),
      fun u => told_iff h rfl rfl (fun _ => by simp [hpc, Pc.past]) nofun, id⟩
  · next hpc =>
    cases hs
    refine .inl ⟨hother (by simp [hpc]),
      fun u => told_iff h rfl rfl (fun hnone => ?_) (fun hdone => by simpa using hdone), id⟩
    simp [hpc, hnone, Pc.past]
  · cases hs

def State.AtMostOneTold (s : State τ) : Prop := ∀ t u, s.Told t → s.Told u → t = u

lemma step_atMostOne (h : Inv s) (hs : step s t = some s') (hone : s.AtMostOneTold) :
    s'.AtMostOneTold ↔ Apart s t := by
  rcases step_told h hs with ⟨hempties, htold, -⟩ | ⟨hempties, htold⟩
  · refine iff_of_true (fun u v hu hv => ?_) fun h => absurd h hempties
    exact hone u v ((htold u).mp hu) ((htold v).mp hv)
  · constructor
    · intro hone' _ u hu
      obtain rfl := hone' u t ((htold u).mpr (.inr hu)) ((htold t).mpr (.inl rfl))
      rw [hempties.1] at hu
      cases hu
    · intro hapart u v hu hv
      have honly : ∀ u, s'.Told u → u = t := fun u hu =>
        ((htold u).mp hu).resolve_right (hapart hempties u)
      rw [honly u hu, honly v hv]

lemma step_told_mono (h : Inv s) (hs : step s t = some s') (hu : s.Told u) : s'.Told u := by
  rcases step_told h hs with ⟨-, htold, -⟩ | ⟨hempties, -⟩
  · exact (htold u).mpr hu
  · exact absurd hu (h.not_told (h.head_ne_none hempties.1))

lemma step_someTold (h : Inv s) (hs : step s t = some s')
    (hsome : s.threads.head = none → ∃ u, s.Told u) :
    s'.threads.head = none → ∃ u, s'.Told u := by
  intro hnone
  rcases step_told h hs with ⟨-, htold, hhead⟩ | ⟨-, htold⟩
  · obtain ⟨u, hu⟩ := hsome (hhead hnone)
    exact ⟨u, (htold u).mpr hu⟩
  · exact ⟨t, (htold t).mpr (.inl rfl)⟩

/-! ### A whole run -/

lemma run_told_mono {labels : List τ} (h : Inv s) (hrun : run step s labels = some s')
    (hu : s.Told u) : s'.Told u := by
  induction labels generalizing s with
  | nil => exact Option.some.inj hrun ▸ hu
  | cons t labels ih =>
    obtain ⟨s₁, hs, hrun⟩ := Option.bind_eq_some_iff.mp hrun
    exact ih (step_inv h hs) hrun (step_told_mono h hs hu)

lemma run_atMostOne {labels : List τ} (h : Inv s) (hone : s.AtMostOneTold)
    (hrun : run step s labels = some s') : s'.AtMostOneTold ↔ Along step Apart s labels := by
  induction labels generalizing s with
  | nil => exact iff_of_true (Option.some.inj hrun ▸ hone) trivial
  | cons t labels ih =>
    obtain ⟨s₁, hs, hrun⟩ := Option.bind_eq_some_iff.mp hrun
    have h₁ := step_inv h hs
    have hiff := step_atMostOne h hs hone
    by_cases hapart : Apart s t
    · rw [ih h₁ (hiff.mpr hapart) hrun]
      refine ⟨fun hrest => along_cons hapart hs hrest, fun halong => halong.2 s₁ hs⟩
    · refine iff_of_false (fun hone' => ?_) fun halong => hapart halong.1
      refine hapart (hiff.mp fun u v hu hv => ?_)
      exact hone' u v (run_told_mono h₁ hrun hu) (run_told_mono h₁ hrun hv)

/-! ### The list at the start -/

lemma threadListAdd_linked {tail : Option τ} {l : List τ}
    (hl : Linked threads.threadListNext threads.threadListPrev threads.head tail l)
    (hnodup : l.Nodup) (ht : t ∉ l) :
    ∃ tail, Linked (threadListAdd threads t).threadListNext
      (threadListAdd threads t).threadListPrev (threadListAdd threads t).head tail (t :: l) := by
  have hhead : threads.head ≠ some t := by
    rw [hl.head_eq]
    exact fun h => ht (List.mem_of_head? h)
  refine ⟨_, hl.pushFront hnodup ⟨?_, ?_⟩ (fun u hu => ?_) fun u hu => ?_⟩
  · simp [threadListAdd, hhead]
  · simp [threadListAdd]
  · have hne : u ≠ t := fun hut => ht (hut ▸ hu)
    simp [threadListAdd, hne]
  · have hne : u ≠ t := fun hut => ht (hut ▸ hu)
    simp [threadListAdd, hne]

lemma init_linked {tail : Option τ} {l l' : List τ}
    (hl : Linked threads.threadListNext threads.threadListPrev threads.head tail l)
    (hnodup : (l'.reverse ++ l).Nodup) :
    ∃ tail, Linked (l'.foldl threadListAdd threads).threadListNext
      (l'.foldl threadListAdd threads).threadListPrev (l'.foldl threadListAdd threads).head tail
      (l'.reverse ++ l) := by
  induction l' generalizing threads tail l with
  | nil => exact ⟨tail, hl⟩
  | cons t l' ih =>
    rw [List.reverse_cons, List.append_assoc] at hnodup ⊢
    have hcons := (List.nodup_append'.mp hnodup).2.1
    obtain ⟨tail', hl'⟩ := threadListAdd_linked hl (List.nodup_cons.mp hcons).2
      (List.nodup_cons.mp hcons).1
    exact ih hl' hnodup

section

variable {next prev : τ → Option τ} {l : List τ}

lemma init_inv (hnodup : l.Nodup) : Inv (.init (threadListInit next prev) l) where
  locks t := by
    simp only [State.init]
    split_ifs <;> simp [Pc.locks]
  holds := by
    have hempty : Linked (threadListInit next prev).threadListNext
        (threadListInit next prev).threadListPrev (threadListInit next prev).head none [] :=
      linked_nil next prev
    obtain ⟨tail, hlinked⟩ :=
      init_linked hempty (show (l.reverse ++ []).Nodup by simpa using hnodup)
    refine ⟨_, _, _, _, ?_, fun t => ?_, hlinked, fun _ => ⟨rfl, rfl⟩, fun t ht => ?_⟩
    · simpa using hnodup
    · simp only [State.init]
      split_ifs with ht <;> simp [ht, Pc.linked]
    · simp only [State.init] at ht
      split_ifs at ht
  told t ht := by
    simp only [State.init] at ht
    split_ifs at ht

lemma init_head (hnodup : l.Nodup) (hne : l ≠ []) :
    (State.init (threadListInit next prev) l).threads.head ≠ none := by
  intro hnone
  obtain ⟨t, ht⟩ := List.exists_mem_of_ne_nil l hne
  exact (((init_inv hnodup).head_eq_none_iff.mp hnone) t).1 (if_pos ht)

lemma step_absent (hs : step s t = some s') (hu : s.pc u = .absent) : s'.pc u = .absent := by
  have hpc : ∃ p', s'.pc = Function.update s.pc t p' ∧ s.pc t ≠ .absent := by
    rw [step] at hs
    split at hs
    · cases hs
    · next hpc =>
      split at hs
      · cases hs
        exact ⟨_, rfl, by simp [hpc]⟩
      · cases hs
    · next hpc =>
      cases hs
      exact ⟨_, rfl, by simp [hpc]⟩
    · next hpc =>
      cases hs
      exact ⟨_, rfl, by simp [hpc]⟩
    · next hpc =>
      cases hs
      exact ⟨_, rfl, by simp [hpc]⟩
    · next hpc =>
      cases hs
      exact ⟨_, rfl, by simp [hpc]⟩
    · cases hs
  obtain ⟨p', hpc', hne⟩ := hpc
  have hut : u ≠ t := by
    rintro rfl
    exact hne hu
  rw [hpc', Function.update_of_ne hut, hu]

/-- **One removal is the last**: of all the calls for the threads of a list exactly one is told that
the list is empty, if and only if the list is never left empty while another call is about to read
the head. -/
theorem toldOnce_iff {labels : List τ} (hnodup : l.Nodup) (hne : l ≠ [])
    (hrun : run step (.init (threadListInit next prev) l) labels = some s)
    (hdone : ∀ t ∈ l, ∃ empty, s.pc t = .done empty) :
    (∃! t, s.pc t = .done true) ↔
      Along step Apart (.init (threadListInit next prev) l) labels := by
  have hinit := @init_inv τ _ next prev l hnodup
  have hhead := @init_head τ _ next prev l hnodup hne
  have hend : Inv s ∧ (∀ t, t ∉ l → s.pc t = .absent) ∧
      (s.threads.head = none → ∃ u, s.Told u) := by
    refine run_inv (I := fun s => Inv s ∧ (∀ t, t ∉ l → s.pc t = .absent) ∧
      (s.threads.head = none → ∃ u, s.Told u)) (fun s t s' h _ hs => ?_) labels _ s
      ⟨hinit, fun t ht => if_neg ht, fun hnone => absurd hnone hhead⟩ (along_true _ _) hrun
    exact ⟨step_inv h.1 hs, fun u hu => step_absent hs (h.2.1 u hu),
      step_someTold h.1 hs h.2.2⟩
  obtain ⟨hinv, habsent, hsome⟩ := hend
  -- when all calls have returned, those who are told are those who have returned so
  have htold : ∀ t, s.Told t ↔ s.pc t = .done true := by
    intro t
    refine ⟨fun ht => ht.resolve_right fun hpast => ?_, .inl⟩
    by_cases hmem : t ∈ l
    · obtain ⟨empty, hempty⟩ := hdone t hmem
      simp [hempty, Pc.past] at hpast
    · simp [habsent t hmem, Pc.past] at hpast
  have hnone : s.threads.head = none := by
    refine hinv.head_eq_none_iff.mpr fun t => ?_
    by_cases hmem : t ∈ l
    · obtain ⟨empty, hempty⟩ := hdone t hmem
      simp [hempty]
    · simp [habsent t hmem]
  rw [← run_atMostOne hinit (fun t u ht => absurd ht (hinit.not_told hhead)) hrun]
  constructor
  · rintro ⟨v, -, hunique⟩ t u ht hu
    rw [hunique t ((htold t).mp ht), hunique u ((htold u).mp hu)]
  · intro hone
    obtain ⟨t, ht⟩ := hsome hnone
    exact ⟨t, (htold t).mp ht, fun u hu => hone u t ((htold u).mpr hu) ht⟩

end

instance [Fintype τ] (s : State τ) (t : τ) : Decidable (Apart s t) :=
  inferInstanceAs (Decidable (_ ∧ _ ∧ _ → _))

/-- One removal after the other. -/
def inTurn : List Bool := List.replicate 5 false ++ List.replicate 5 true

theorem inTurn_toldOnce : ∃ s, run step (.init (threadListInit (fun _ => none) fun _ => none)
    [false, true]) inTurn = some s ∧ ∃! t, s.pc t = .done true := by
  obtain ⟨s, hs, hdone⟩ : ∃ s, run step
      (.init (threadListInit (fun _ => none) fun _ => none) [false, true]) inTurn = some s ∧
        ∀ t : Bool, s.pc t = .done t := ⟨_, rfl, by decide⟩
  refine ⟨s, hs, (toldOnce_iff (by decide) (by decide) hs fun t _ => ⟨t, hdone t⟩).mpr ?_⟩
  decide +kernel

/-- Both calls unlink their threads before either of them reads the head. -/
def together : List Bool :=
  List.replicate 4 false ++ List.replicate 4 true ++ [false, true]

/-- Both of them are told that the list is empty. -/
theorem together_not_toldOnce : ¬∀ (l labels : List Bool) (s : State Bool), l.Nodup → l ≠ [] →
    run step (.init (threadListInit (fun _ => none) fun _ => none) l) labels = some s →
    (∀ t ∈ l, ∃ empty, s.pc t = .done empty) → ∃! t, s.pc t = .done true := by
  intro h
  obtain ⟨s, hs, hdone⟩ : ∃ s, run step
      (.init (threadListInit (fun _ => none) fun _ => none) [false, true]) together = some s ∧
        ∀ t : Bool, s.pc t = .done true := ⟨_, rfl, by decide⟩
  obtain ⟨t, -, hunique⟩ := h [false, true] together s (by decide) (by decide) hs
    fun t _ => ⟨true, hdone t⟩
  have hfalse := hunique false (hdone false)
  have htrue := hunique true (hdone true)
  rw [← hfalse] at htrue
  cases htrue

end KernelModel.Threads
