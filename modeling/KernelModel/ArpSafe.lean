import KernelModel.Arp

/-!
What the resolver promises: a call that nobody helps asks the network, a call returns the hardware
address of the last reply, and after a late reply a call succeeds.
-/

namespace KernelModel.Arp

variable {n : ℕ} {s t : State n} {address : ℕ}

/-! ### The promises -/

/-- The hardware address of the last reply for an address. -/
def lastReply (address : ℕ) : List Event → Option Mac
  | [] => none
  | .reply spa sender :: before => if spa = address then some sender else lastReply address before
  | _ :: before => lastReply address before

/-- A reply for the address arrived after a call had timed out. -/
def Late (address : ℕ) : List Event → Prop
  | [] => False
  | .reply spa _ :: before => spa = address ∧ .failure address ∈ before ∨ Late address before
  | _ :: before => Late address before

/-- Every success has the hardware address of the last reply. -/
def Returned : List Event → Prop
  | [] => True
  | .success address out :: before =>
    (fixedAddress address).or (lastReply address before) = some out ∧ Returned before
  | _ :: before => Returned before

/-- No call goes on to wait, or gives up, after a late reply. -/
def Retried : List Event → Prop
  | [] => True
  | .wait address :: before => ¬Late address before ∧ Retried before
  | .refused address :: before => ¬Late address before ∧ Retried before
  | _ :: before => Retried before

structure Promises (s : State n) : Prop where
  /-- A call that started with nobody waiting has broadcast a request before it waits. -/
  asks : ∀ thread c, s.calls thread = some c → c.phase ≠ .send → c.alone → c.asked
  returned : Returned s.log
  retried : Retried s.log

/-! ### The condition -/

/-- The callback stores a reply for the address. -/
def State.Storing (s : State n) (address : ℕ) : Prop :=
  ∃ sender i, s.writer = some (address, sender, i)

/-- A call for the address copies the hardware address after its wait. -/
def State.Copying (s : State n) (address : ℕ) : Prop :=
  ∃ thread c i out, s.calls thread = some c ∧ c.address = address ∧ c.phase = .copy i out

/-- A blocking call that starts unresolved with nobody waiting is the first one for its address, and
replies are not stored while a call copies. -/
def Ok (s : State n) : Label n → Prop
  | .call thread address nonblocking =>
    s.calls thread = none → fixedAddress address = none → nonblocking = false →
      ¬s.Resolved address → ¬s.Waiting address → s.cache address = none
  | .proceed thread .check =>
    ∀ c, s.calls thread = some c → s.Resolved c.address → ¬s.Storing c.address
  | .receive self packet =>
    sizeofPacket ≤ packet.length → packet.tpa = self → packet.oper = operReply →
      ¬s.Copying packet.spa
  | _ => True

/-! ### The invariant -/

structure Inv (s : State n) : Prop where
  entry : ∀ thread c, s.calls thread = some c → ∃ e, s.cache c.address = some e
  /-- What a call has copied is what the entry has, and stays so. -/
  copied : ∀ thread c i out, s.calls thread = some c → c.phase = .copy i out →
    ¬s.Storing c.address ∧ ∃ e, s.cache c.address = some e ∧ e.resolved ∧
      ∀ j : Fin 6, j.val < i → out j = e.address j
  stored : ∀ address e, s.cache address = some e → e.resolved → ¬s.Storing address →
    lastReply address s.log = some e.address
  storing : ∀ address sender i, s.writer = some (address, sender, i) →
    lastReply address s.log = some sender ∧
      ∃ e, s.cache address = some e ∧ ∀ j : Fin 6, j.val < i → e.address j = sender j
  failed : ∀ address, .failure address ∈ s.log → ∃ e, s.cache address = some e
  late : ∀ address, Late address s.log → s.Resolved address ∨ s.Storing address
  fixed : ∀ address e, s.cache address = some e → fixedAddress address = none

lemma inv_init : Inv (init n) where
  entry _ _ h := nomatch h
  copied _ _ _ _ h := nomatch h
  stored _ _ h := nomatch h
  storing _ _ _ h := nomatch h
  failed _ h := nomatch h
  late _ h := nomatch h
  fixed _ _ h := nomatch h

/-! ### The parts of a step -/

section Push

variable {e : Event}

lemma lastReply_push (h : ∀ spa sender, e ≠ .reply spa sender) (log : List Event) :
    lastReply address (e :: log) = lastReply address log := by
  cases e with
  | reply spa sender => exact absurd rfl (h spa sender)
  | _ => rfl

lemma late_push (h : ∀ spa sender, e ≠ .reply spa sender) (log : List Event) :
    Late address (e :: log) ↔ Late address log := by
  cases e with
  | reply spa sender => exact absurd rfl (h spa sender)
  | _ => rfl

lemma inv_push (hinv : Inv s) (hreply : ∀ spa sender, e ≠ .reply spa sender)
    (hfailure : ∀ a, e = .failure a → ∃ entry, s.cache a = some entry) : Inv (s.push e) where
  entry := hinv.entry
  copied := hinv.copied
  stored a entry hentry hres hfree := by
    rw [State.push, lastReply_push hreply]
    exact hinv.stored a entry hentry hres hfree
  storing a sender i hwriter := by
    rw [State.push, lastReply_push hreply]
    exact hinv.storing a sender i hwriter
  failed a hmem := by
    rcases List.mem_cons.mp hmem with heq | hmem
    · exact hfailure a heq.symm
    · exact hinv.failed a hmem
  late a hlate := hinv.late a ((late_push hreply _).mp hlate)
  fixed := hinv.fixed

end Push

lemma inv_setCall {thread : Fin n} {c' : Option Call} (hinv : Inv s)
    (hentry : ∀ c, c' = some c → ∃ e, s.cache c.address = some e)
    (hcopied : ∀ c i out, c' = some c → c.phase = .copy i out →
      ¬s.Storing c.address ∧ ∃ e, s.cache c.address = some e ∧ e.resolved ∧
        ∀ j : Fin 6, j.val < i → out j = e.address j) : Inv (s.setCall thread c') where
  entry other c hc := by
    by_cases hother : other = thread
    · subst hother
      exact hentry c (by simpa [State.setCall] using hc)
    · exact hinv.entry other c (by simpa [State.setCall, hother] using hc)
  copied other c i out hc hphase := by
    by_cases hother : other = thread
    · subst hother
      exact hcopied c i out (by simpa [State.setCall] using hc) hphase
    · exact hinv.copied other c i out (by simpa [State.setCall, hother] using hc) hphase
  stored := hinv.stored
  storing := hinv.storing
  failed := hinv.failed
  late := hinv.late
  fixed := hinv.fixed

lemma inv_create (hinv : Inv s) (hnone : s.cache address = none)
    (hfixed : fixedAddress address = none) (m : Mac) :
    Inv { s with cache := Function.update s.cache address (some ⟨m, false⟩) } := by
  have hother : ∀ a e, s.cache a = some e →
      Function.update s.cache address (some ⟨m, false⟩) a = some e := by
    intro a e ha
    rw [Function.update_of_ne (fun h => by rw [h, hnone] at ha; cases ha), ha]
  refine ⟨?_, ?_, ?_, ?_, ?_, ?_, ?_⟩
  · intro thread c hc
    obtain ⟨e, he⟩ := hinv.entry thread c hc
    exact ⟨e, hother _ e he⟩
  · intro thread c i out hc hphase
    obtain ⟨hfree, e, he, hrest⟩ := hinv.copied thread c i out hc hphase
    exact ⟨hfree, e, hother _ e he, hrest⟩
  · intro a e ha hres hfree
    by_cases heq : a = address
    · subst heq
      simp only [Function.update_self, Option.some.injEq] at ha
      rw [← ha] at hres
      cases hres
    · simp only [Function.update_of_ne heq] at ha
      exact hinv.stored a e ha hres hfree
  · intro a sender i hwriter
    obtain ⟨hlast, e, he, hrest⟩ := hinv.storing a sender i hwriter
    exact ⟨hlast, e, hother _ e he, hrest⟩
  · intro a hmem
    obtain ⟨e, he⟩ := hinv.failed a hmem
    exact ⟨e, hother _ e he⟩
  · intro a hlate
    refine (hinv.late a hlate).imp_left ?_
    rintro ⟨e, he, hres⟩
    exact ⟨e, hother _ e he, hres⟩
  · intro a e ha
    by_cases heq : a = address
    · exact heq ▸ hfixed
    · simp only [Function.update_of_ne heq] at ha
      exact hinv.fixed a e ha

lemma lastReply_reply {spa : ℕ} {sender : Mac} {log : List Event} :
    lastReply address (.reply spa sender :: log) =
      if spa = address then some sender else lastReply address log := rfl

lemma inv_reply_unknown {spa : ℕ} {sender : Mac} (hinv : Inv s) (hnone : s.cache spa = none)
    (hfree : s.writer = none) : Inv (s.push (.reply spa sender)) where
  entry := hinv.entry
  copied := hinv.copied
  stored a e ha hres hstoring := by
    have hne : spa ≠ a := by
      rintro rfl
      cases hnone.symm.trans ha
    rw [State.push, lastReply_reply, if_neg hne]
    exact hinv.stored a e ha hres hstoring
  storing a sender' i hwriter := by
    have hwriter' : s.writer = some (a, sender', i) := hwriter
    rw [hfree] at hwriter'
    cases hwriter'
  failed a hmem := hinv.failed a (by simpa [State.push] using hmem)
  late a hlate := by
    rcases hlate with ⟨rfl, hmem⟩ | hlate
    · obtain ⟨e, he⟩ := hinv.failed _ hmem
      rw [hnone] at he
      cases he
    · exact hinv.late a hlate
  fixed := hinv.fixed

lemma inv_reply {spa : ℕ} {sender : Mac} {e : Entry} (hinv : Inv s) (hentry : s.cache spa = some e)
    (hfree : s.writer = none) (hcopying : ¬s.Copying spa) :
    Inv { s.push (.reply spa sender) with writer := some (spa, sender, 0) } := by
  have hstoring : ∀ a, State.Storing { s.push (.reply spa sender) with
      writer := some (spa, sender, 0) } a ↔ a = spa := by
    intro a
    constructor
    · rintro ⟨sender', i, h⟩
      exact (congrArg Prod.fst (Option.some.inj h)).symm
    · rintro rfl
      exact ⟨sender, 0, rfl⟩
  have hnot : ∀ a, ¬s.Storing a := by
    rintro a ⟨sender', i, h⟩
    rw [hfree] at h
    cases h
  refine ⟨hinv.entry, ?_, ?_, ?_, ?_, ?_, hinv.fixed⟩
  · intro thread c i out hc hphase
    refine ⟨fun h => hcopying ?_, (hinv.copied thread c i out hc hphase).2⟩
    exact ⟨thread, c, i, out, hc, (hstoring _).mp h, hphase⟩
  · intro a e' ha hres hother
    rw [hstoring] at hother
    rw [State.push, lastReply_reply, if_neg (fun h => hother h.symm)]
    exact hinv.stored a e' ha hres (hnot a)
  · intro a sender' i hwriter
    obtain ⟨rfl, rfl, rfl⟩ : spa = a ∧ sender = sender' ∧ 0 = i := by
      simpa using hwriter
    exact ⟨if_pos rfl, e, hentry, fun j hj => absurd hj (Nat.not_lt_zero _)⟩
  · intro a hmem
    exact hinv.failed a (by simpa [State.push] using hmem)
  · intro a hlate
    by_cases ha : a = spa
    · exact .inr ((hstoring a).mpr ha)
    · rcases hlate with ⟨rfl, _⟩ | hlate
      · exact absurd rfl ha
      · exact .inl ((hinv.late a hlate).resolve_right (hnot a))

lemma inv_storeByte {sender : Mac} {i : ℕ} {e : Entry} (hinv : Inv s)
    (hwriter : s.writer = some (address, sender, i)) (hentry : s.cache address = some e)
    (hi : i < 6) :
    Inv { s with
      cache := Function.update s.cache address
        (some { e with address := Function.update e.address ⟨i, hi⟩ (sender ⟨i, hi⟩) })
      writer := some (address, sender, i + 1) } := by
  have hstoring : s.Storing address := ⟨sender, i, hwriter⟩
  have hsame : ∀ a, ¬s.Storing a → a ≠ address := fun a h heq => h (heq ▸ hstoring)
  have hiff : ∀ a, State.Storing { s with
      cache := Function.update s.cache address
        (some { e with address := Function.update e.address ⟨i, hi⟩ (sender ⟨i, hi⟩) })
      writer := some (address, sender, i + 1) } a ↔ s.Storing a := by
    intro a
    constructor
    · rintro ⟨sender', j, h⟩
      obtain rfl : address = a := congrArg Prod.fst (Option.some.inj h)
      exact hstoring
    · rintro ⟨sender', j, h⟩
      rw [hwriter] at h
      obtain rfl : address = a := congrArg Prod.fst (Option.some.inj h)
      exact ⟨sender, i + 1, rfl⟩
  refine ⟨?_, ?_, ?_, ?_, ?_, ?_, ?_⟩
  · intro thread c hc
    obtain ⟨e', he'⟩ := hinv.entry thread c hc
    by_cases ha : c.address = address
    · exact ⟨_, by simp only [ha, Function.update_self]; rfl⟩
    · exact ⟨e', by simp only [Function.update_of_ne ha]; exact he'⟩
  · intro thread c j out hc hphase
    obtain ⟨hfree, hrest⟩ := hinv.copied thread c j out hc hphase
    rw [hiff]
    simp only [Function.update_of_ne (hsame _ hfree)]
    exact ⟨hfree, hrest⟩
  · intro a e' ha hres hfree
    rw [hiff] at hfree
    simp only [Function.update_of_ne (hsame _ hfree)] at ha
    exact hinv.stored a e' ha hres hfree
  · intro a sender' j hwriter'
    obtain ⟨rfl, rfl, rfl⟩ : address = a ∧ sender = sender' ∧ i + 1 = j := by
      simpa using hwriter'
    obtain ⟨hlast, e', he', hbytes⟩ := hinv.storing _ _ _ hwriter
    rw [hentry, Option.some.injEq] at he'
    subst he'
    refine ⟨hlast, _, Function.update_self _ _ _, fun j hj => ?_⟩
    by_cases hji : j = ⟨i, hi⟩
    · rw [hji]
      exact Function.update_self _ _ _
    · refine (Function.update_of_ne hji _ _).trans ?_
      exact hbytes j (lt_of_le_of_ne (Nat.le_of_lt_succ hj) fun h => hji (Fin.ext h))
  · intro a hmem
    obtain ⟨e', he'⟩ := hinv.failed a hmem
    by_cases ha : a = address
    · exact ⟨_, by simp only [ha, Function.update_self]; rfl⟩
    · exact ⟨e', by simp only [Function.update_of_ne ha]; exact he'⟩
  · intro a hlate
    rcases hinv.late a hlate with ⟨e', he', hres⟩ | hfree
    · by_cases ha : a = address
      · exact .inr ((hiff a).mpr (ha ▸ hstoring))
      · exact .inl ⟨e', by simp only [Function.update_of_ne ha]; exact he', hres⟩
    · exact .inr ((hiff a).mpr hfree)
  · intro a e' ha
    by_cases heq : a = address
    · exact heq ▸ hinv.fixed address e hentry
    · simp only [Function.update_of_ne heq] at ha
      exact hinv.fixed a e' ha

lemma inv_storeEnd {sender : Mac} {i : ℕ} {e : Entry} (hinv : Inv s)
    (hwriter : s.writer = some (address, sender, i)) (hentry : s.cache address = some e)
    (hi : ¬i < 6) :
    Inv { s with
      cache := Function.update s.cache address (some { e with resolved := true })
      writer := none } := by
  have hnot : ∀ a, a ≠ address → ¬s.Storing a := by
    rintro a ha ⟨sender', j, h⟩
    rw [hwriter] at h
    exact ha (congrArg Prod.fst (Option.some.inj h)).symm
  have hstoring : s.Storing address := ⟨sender, i, hwriter⟩
  refine ⟨?_, ?_, ?_, ?_, ?_, ?_, ?_⟩
  · intro thread c hc
    obtain ⟨e', he'⟩ := hinv.entry thread c hc
    by_cases ha : c.address = address
    · exact ⟨_, by simp only [ha, Function.update_self]; rfl⟩
    · exact ⟨e', by simp only [Function.update_of_ne ha]; exact he'⟩
  · intro thread c j out hc hphase
    obtain ⟨hfree, hrest⟩ := hinv.copied thread c j out hc hphase
    have hne : c.address ≠ address := fun h => hfree (h ▸ hstoring)
    simp only [Function.update_of_ne hne]
    exact ⟨fun ⟨_, _, h⟩ => (nomatch h), hrest⟩
  · intro a e' ha hres _
    by_cases heq : a = address
    · subst heq
      simp only [Function.update_self, Option.some.injEq] at ha
      obtain ⟨hlast, e'', he'', hbytes⟩ := hinv.storing _ _ _ hwriter
      rw [hentry, Option.some.injEq] at he''
      subst he''
      rw [← ha]
      change lastReply a s.log = _
      rw [hlast, Option.some.injEq]
      exact funext fun j => (hbytes j (by omega)).symm
    · simp only [Function.update_of_ne heq] at ha
      exact hinv.stored a e' ha hres (hnot a heq)
  · intro a sender' j h
    cases h
  · intro a hmem
    obtain ⟨e', he'⟩ := hinv.failed a hmem
    by_cases ha : a = address
    · exact ⟨_, by simp only [ha, Function.update_self]; rfl⟩
    · exact ⟨e', by simp only [Function.update_of_ne ha]; exact he'⟩
  · intro a hlate
    by_cases ha : a = address
    · subst ha
      exact .inl ⟨_, Function.update_self _ _ _, rfl⟩
    · obtain ⟨e', he', hres⟩ := (hinv.late a hlate).resolve_right (hnot a ha)
      exact .inl ⟨e', by simp only [Function.update_of_ne ha]; exact he', hres⟩
  · intro a e' ha
    by_cases heq : a = address
    · exact heq ▸ hinv.fixed address e hentry
    · simp only [Function.update_of_ne heq] at ha
      exact hinv.fixed a e' ha

/-! ### The invariant along a run -/

variable {thread : Fin n} {nonblocking : Bool}

/-- The record of a call that waits. -/
def State.newCall (s : State n) (address : ℕ) (phase : Phase) : Call :=
  ⟨address, !decide (s.Waiting address), false, phase⟩

/-- The ways a call can start, once the address is looked up. -/
inductive Started (s : State n) (thread : Fin n) (address : ℕ) (nonblocking : Bool) :
    State n → Prop
  | found (e : Entry) : s.cache address = some e → e.resolved →
      Started s thread address nonblocking (s.push (.success address e.address))
  | refused : ¬s.Resolved address → Started s thread address nonblocking (s.push (.refused address))
  | joined (e : Entry) : s.cache address = some e → nonblocking = false → ¬s.Resolved address →
      Started s thread address nonblocking
        ((s.push (.wait address)).setCall thread (some (s.newCall address .wait)))
  | created : s.cache address = none → nonblocking = false → ¬s.Resolved address →
      Started s thread address nonblocking
        (({ s with cache := Function.update s.cache address (some ⟨fun _ => 0, false⟩) }.push
          (.wait address)).setCall thread (some (s.newCall address .send)))

lemma call_cases (h : s.call thread address nonblocking = some t) :
    (∃ out, fixedAddress address = some out ∧ t = s.push (.success address out)) ∨
      fixedAddress address = none ∧ s.writer = none ∧ Started s thread address nonblocking t := by
  rw [State.call] at h
  cases hfixed : fixedAddress address with
  | some out =>
    rw [hfixed] at h
    exact .inl ⟨out, rfl, (Option.some.inj h).symm⟩
  | none =>
    rw [hfixed] at h
    refine .inr ⟨rfl, ?_⟩
    cases hwriter : s.writer with
    | some _ => simp [hwriter] at h
    | none =>
      refine ⟨rfl, ?_⟩
      cases hentry : s.cache address with
      | none =>
        have hres : ¬s.Resolved address := fun ⟨e, he, _⟩ => nomatch hentry.symm.trans he
        cases nonblocking with
        | true =>
          simp only [hwriter, hentry, Option.isSome_none, Bool.false_eq_true, if_false, if_true,
            Option.some.injEq] at h
          exact h ▸ .refused hres
        | false =>
          simp only [hwriter, hentry, Option.isSome_none, Bool.false_eq_true, if_false,
            Option.some.injEq] at h
          exact h ▸ hwriter ▸ .created hentry rfl hres
      | some e =>
        cases hresolved : e.resolved with
        | true =>
          simp only [hwriter, hentry, hresolved, Option.isSome_none, Bool.false_eq_true, if_false,
            if_true, Option.some.injEq] at h
          exact h ▸ .found e hentry hresolved
        | false =>
          have hres : ¬s.Resolved address := by
            rintro ⟨e', he', hres'⟩
            rw [hentry, Option.some.injEq] at he'
            rw [← he', hresolved] at hres'
            cases hres'
          cases nonblocking with
          | true =>
            simp only [hwriter, hentry, hresolved, Option.isSome_none, Bool.false_eq_true, if_false,
              if_true, Option.some.injEq] at h
            exact h ▸ .refused hres
          | false =>
            simp only [hwriter, hentry, hresolved, Option.isSome_none, Bool.false_eq_true, if_false,
              Option.some.injEq] at h
            exact h ▸ .joined e hentry rfl hres

lemma inv_call (hinv : Inv s) (h : s.call thread address nonblocking = some t) : Inv t := by
  rcases call_cases h with ⟨out, _, rfl⟩ | ⟨hfixed, _, hstarted⟩
  · exact inv_push hinv (by simp) (by simp)
  · cases hstarted with
    | found e _ _ => exact inv_push hinv (by simp) (by simp)
    | refused _ => exact inv_push hinv (by simp) (by simp)
    | joined e hentry _ _ =>
      refine inv_setCall (inv_push hinv (by simp) (by simp)) ?_ ?_
      · rintro c hc
        exact ⟨e, by rw [← Option.some.inj hc]; exact hentry⟩
      · intro c i out hc hphase
        rw [← Option.some.inj hc] at hphase
        cases hphase
    | created hnone _ _ =>
      refine inv_setCall (inv_push (inv_create hinv hnone hfixed _) (by simp) (by simp)) ?_ ?_
      · rintro c hc
        exact ⟨_, by rw [← Option.some.inj hc]; exact Function.update_self _ _ _⟩
      · intro c i out hc hphase
        rw [← Option.some.inj hc] at hphase
        cases hphase

lemma inv_proceed {c : Call} {action : Action} (hinv : Inv s) (hc : s.calls thread = some c)
    (hok : Ok s (.proceed thread action)) (h : s.proceed thread c action = some t) : Inv t := by
  obtain ⟨e, he⟩ := hinv.entry thread c hc
  have hstay : ∀ (s' : State n) (c' : Call), Inv s' → s'.cache = s.cache →
      c'.address = c.address → (∀ i out, c'.phase ≠ .copy i out) →
      Inv (s'.setCall thread (some c')) := by
    intro s' c' hinv' hcache haddress hphase
    refine inv_setCall hinv' ?_ ?_
    · intro c'' hc''
      rw [← Option.some.inj hc'', hcache, haddress]
      exact ⟨e, he⟩
    · intro c'' i out hc'' hcopy
      rw [← Option.some.inj hc''] at hcopy
      exact absurd hcopy (hphase i out)
  cases action with
  | send =>
    rw [State.proceed] at h
    split_ifs at h
    rw [← Option.some.inj h]
    exact hstay _ _ (inv_push hinv (by simp) (by simp)) rfl rfl (by simp)
  | timeout =>
    rw [State.proceed] at h
    split_ifs at h
    rw [← Option.some.inj h]
    exact hstay _ _ hinv rfl rfl (by simp)
  | wake =>
    rw [State.proceed] at h
    split_ifs at h
    · rw [← Option.some.inj h]
      exact hstay _ _ hinv rfl rfl (by simp)
    · exact Option.some.inj h ▸ hinv
  | check =>
    rw [State.proceed] at h
    split_ifs at h with _ hres
    · rw [← Option.some.inj h]
      refine inv_setCall hinv ?_ ?_
      · intro c' hc'
        rw [← Option.some.inj hc']
        exact ⟨e, he⟩
      · intro c' i out hc' hphase
        rw [← Option.some.inj hc'] at hphase ⊢
        obtain ⟨e', he', hres'⟩ := hres
        obtain ⟨rfl, _⟩ := Phase.copy.inj hphase
        exact ⟨hok c hc ⟨e', he', hres'⟩, e', he', hres', fun j hj => absurd hj (Nat.not_lt_zero _)⟩
    · rw [← Option.some.inj h]
      refine inv_setCall (inv_push hinv (by simp) ?_) (by simp) (by simp)
      rintro a ha
      rw [← Event.failure.inj ha]
      exact ⟨e, he⟩
  | copy =>
    rw [State.proceed] at h
    split at h
    · next i out e' hphase he' =>
      rw [he, Option.some.injEq] at he'
      subst he'
      obtain ⟨hfree, e', he', hres, hbytes⟩ := hinv.copied thread c i out hc hphase
      rw [he, Option.some.injEq] at he'
      subst he'
      split_ifs at h with hi
      · rw [← Option.some.inj h]
        refine inv_setCall hinv ?_ ?_
        · intro c' hc'
          rw [← Option.some.inj hc']
          exact ⟨e, he⟩
        · intro c' j out' hc' hphase'
          rw [← Option.some.inj hc'] at hphase' ⊢
          obtain ⟨rfl, rfl⟩ := Phase.copy.inj hphase'
          refine ⟨hfree, e, he, hres, fun j hj => ?_⟩
          by_cases hji : j = ⟨i, hi⟩
          · rw [hji]
            exact Function.update_self _ _ _
          · refine (Function.update_of_ne hji _ _).trans ?_
            exact hbytes j (lt_of_le_of_ne (Nat.le_of_lt_succ hj) fun h => hji (Fin.ext h))
      · rw [← Option.some.inj h]
        exact inv_setCall (inv_push hinv (by simp) (by simp)) (by simp) (by simp)
    · cases h

lemma inv_receive {self : ℕ} {packet : Packet} (hinv : Inv s) (hok : Ok s (.receive self packet))
    (h : s.receive self packet = some t) : Inv t := by
  rw [State.receive] at h
  split_ifs at h with hcheck hprobe hreply hlock
  · exact Option.some.inj h ▸ hinv
  · rw [← Option.some.inj h]
    exact inv_push hinv (by simp) (by simp)
  · exact Option.some.inj h ▸ hinv
  · have hfree : s.writer = none := by simpa using hlock
    push Not at hcheck hreply
    split at h
    · next hnone =>
      rw [← Option.some.inj h]
      exact inv_reply_unknown hinv hnone hfree
    · next e hentry =>
      rw [← Option.some.inj h]
      exact inv_reply hinv hentry hfree (hok hcheck.1 hcheck.2 hreply)

lemma inv_store (hinv : Inv s) (h : s.store = some t) : Inv t := by
  rw [State.store] at h
  split at h
  · cases h
  · next a sender i hwriter =>
    split at h
    · cases h
    · next e hentry =>
      split_ifs at h with hi
      · rw [← Option.some.inj h]
        exact inv_storeByte hinv hwriter hentry hi
      · rw [← Option.some.inj h]
        exact inv_storeEnd hinv hwriter hentry hi

/-- **The invariant** is kept by every step that meets the condition. -/
lemma inv_step {l : Label n} (hinv : Inv s) (hok : Ok s l) (h : step s l = some t) : Inv t := by
  cases l with
  | call thread address nonblocking =>
    rw [step] at h
    split_ifs at h
    exact inv_call hinv h
  | proceed thread action =>
    rw [step, Option.bind_eq_some_iff] at h
    obtain ⟨c, hc, h⟩ := h
    exact inv_proceed hinv hc hok h
  | receive self packet => exact inv_receive hinv hok h
  | store => exact inv_store hinv h

/-! ### The promises along a run -/

lemma promises_init : Promises (init n) := ⟨fun _ _ h => (nomatch h), trivial, trivial⟩

/-- An address that is resolved while nobody stores a reply has the last reply. -/
lemma Inv.lastReply_eq {e : Entry} (hinv : Inv s) (hfree : s.writer = none)
    (hentry : s.cache address = some e) (hres : e.resolved) :
    (fixedAddress address).or (lastReply address s.log) = some e.address := by
  rw [hinv.fixed address e hentry, Option.none_or]
  refine hinv.stored address e hentry hres ?_
  rintro ⟨sender, i, h⟩
  rw [hfree] at h
  cases h

lemma Inv.not_late (hinv : Inv s) (hfree : s.writer = none) (hres : ¬s.Resolved address) :
    ¬Late address s.log := by
  intro hlate
  rcases hinv.late address hlate with h | ⟨sender, i, h⟩
  · exact hres h
  · rw [hfree] at h
    cases h

lemma asks_setCall {s' : State n} {c' : Option Call} (hcalls : s'.calls = s.calls)
    (hasks : ∀ other c, s.calls other = some c → c.phase ≠ .send → c.alone → c.asked)
    (hnew : ∀ c, c' = some c → c.phase ≠ .send → c.alone → c.asked) :
    ∀ other c, (s'.setCall thread c').calls other = some c → c.phase ≠ .send → c.alone →
      c.asked := by
  intro other c hc
  by_cases hother : other = thread
  · subst hother
    exact hnew c (by simpa [State.setCall] using hc)
  · exact hasks other c (by simpa [State.setCall, hother, hcalls] using hc)

lemma promises_call (hinv : Inv s) (hp : Promises s) (hidle : s.calls thread = none)
    (hok : Ok s (.call thread address nonblocking))
    (h : s.call thread address nonblocking = some t) : Promises t := by
  rcases call_cases h with ⟨out, hfixed, rfl⟩ | ⟨hfixed, hfree, hstarted⟩
  · exact ⟨hp.asks, ⟨by rw [hfixed]; rfl, hp.returned⟩, hp.retried⟩
  · cases hstarted with
    | found e hentry hres =>
      exact ⟨hp.asks, ⟨hinv.lastReply_eq hfree hentry hres, hp.returned⟩, hp.retried⟩
    | refused hres => exact ⟨hp.asks, hp.returned, hinv.not_late hfree hres, hp.retried⟩
    | joined e hentry hblocking hres =>
      refine ⟨asks_setCall rfl hp.asks ?_, hp.returned, hinv.not_late hfree hres, hp.retried⟩
      intro c hc _ halone
      -- nobody is waiting, so the condition says that there is no entry
      rw [← Option.some.inj hc] at halone
      have hwaiting : ¬s.Waiting address := by simpa [State.newCall] using halone
      have hnone := hok hidle hfixed hblocking hres hwaiting
      rw [hentry] at hnone
      cases hnone
    | created hnone _ hres =>
      refine ⟨asks_setCall rfl hp.asks ?_, hp.returned, hinv.not_late hfree hres, hp.retried⟩
      intro c hc hphase
      rw [← Option.some.inj hc] at hphase
      exact absurd rfl hphase

lemma promises_proceed {c : Call} {action : Action} (hinv : Inv s) (hp : Promises s)
    (hc : s.calls thread = some c) (h : s.proceed thread c action = some t) : Promises t := by
  have hasks : c.phase ≠ .send → c.alone → c.asked := hp.asks thread c hc
  cases action with
  | send =>
    rw [State.proceed] at h
    split_ifs at h
    rw [← Option.some.inj h]
    refine ⟨asks_setCall rfl hp.asks ?_, hp.returned, hp.retried⟩
    intro c' hc' _ _
    rw [← Option.some.inj hc']
  | timeout =>
    rw [State.proceed] at h
    split_ifs at h with hphase
    rw [← Option.some.inj h]
    refine ⟨asks_setCall rfl hp.asks ?_, hp.returned, hp.retried⟩
    intro c' hc' _
    rw [← Option.some.inj hc']
    exact hasks (by rw [hphase]; exact Phase.noConfusion)
  | wake =>
    rw [State.proceed] at h
    split_ifs at h with hphase
    · rw [← Option.some.inj h]
      refine ⟨asks_setCall rfl hp.asks ?_, hp.returned, hp.retried⟩
      intro c' hc' _
      rw [← Option.some.inj hc']
      exact hasks (by rw [hphase]; exact Phase.noConfusion)
    · exact Option.some.inj h ▸ hp
  | check =>
    rw [State.proceed] at h
    split_ifs at h with hphase
    · rw [← Option.some.inj h]
      refine ⟨asks_setCall rfl hp.asks ?_, hp.returned, hp.retried⟩
      intro c' hc' _
      rw [← Option.some.inj hc']
      exact hasks (by rw [hphase]; exact Phase.noConfusion)
    · rw [← Option.some.inj h]
      exact ⟨asks_setCall rfl hp.asks (by simp), hp.returned, hp.retried⟩
  | copy =>
    rw [State.proceed] at h
    split at h
    · next i out e hphase he =>
      obtain ⟨hfree, e', he', hres, hbytes⟩ := hinv.copied thread c i out hc hphase
      rw [he, Option.some.injEq] at he'
      subst he'
      split_ifs at h with hi
      · rw [← Option.some.inj h]
        refine ⟨asks_setCall rfl hp.asks ?_, hp.returned, hp.retried⟩
        intro c' hc' _
        rw [← Option.some.inj hc']
        exact hasks (by rw [hphase]; exact Phase.noConfusion)
      · rw [← Option.some.inj h]
        refine ⟨asks_setCall rfl hp.asks (by simp), ⟨?_, hp.returned⟩, hp.retried⟩
        have hout : out = e.address := funext fun j => hbytes j (by omega)
        rw [hinv.fixed _ e he, Option.none_or, hout]
        exact hinv.stored _ e he hres hfree
    · cases h

/-- **The promises** are kept by every step that meets the condition. -/
lemma promises_step {l : Label n} (hinv : Inv s) (hp : Promises s) (hok : Ok s l)
    (h : step s l = some t) : Promises t := by
  cases l with
  | call thread address nonblocking =>
    rw [step] at h
    split_ifs at h with hidle
    exact promises_call hinv hp hidle hok h
  | proceed thread action =>
    rw [step, Option.bind_eq_some_iff] at h
    obtain ⟨c, hc, h⟩ := h
    exact promises_proceed hinv hp hc h
  | receive self packet =>
    rw [step, State.receive] at h
    split_ifs at h
    · exact Option.some.inj h ▸ hp
    · rw [← Option.some.inj h]
      exact ⟨hp.asks, hp.returned, hp.retried⟩
    · exact Option.some.inj h ▸ hp
    · split at h <;> rw [← Option.some.inj h] <;> exact ⟨hp.asks, hp.returned, hp.retried⟩
  | store =>
    rw [step, State.store] at h
    split at h
    · cases h
    · split at h
      · cases h
      · split_ifs at h <;> rw [← Option.some.inj h] <;> exact ⟨hp.asks, hp.returned, hp.retried⟩

/-- **The resolver** keeps its promises in every run whose steps meet the condition. -/
theorem promises_run (labels : List (Label n)) (hok : Runs.Along step Ok (init n) labels)
    (hrun : Runs.run step (init n) labels = some t) : Promises t :=
  (Runs.run_inv (I := fun s => Inv s ∧ Promises s)
    (fun _ _ _ h hok hstep => ⟨inv_step h.1 hok hstep, promises_step h.1 h.2 hok hstep⟩)
    labels _ t ⟨inv_init, promises_init⟩ hok hrun).2

/-- Two calls wait. One of them times out, and the other one copies what the reply says. -/
def replied : List (Label 2) :=
  [.call 0 5 false, .proceed 0 .send, .call 1 5 false, .proceed 1 .timeout, .proceed 1 .check,
    .receive 9 ⟨sizeofPacket, operReply, fun i => UInt8.ofNat i, 5, 9⟩] ++
  List.replicate 7 .store ++ [.proceed 0 .wake, .proceed 0 .check] ++
  List.replicate 7 (.proceed 0 .copy)

theorem promises_replied : ∃ t, Runs.run step (init 2) replied = some t ∧ Promises t := by
  refine ⟨_, rfl, promises_run replied ?_ rfl⟩
  refine Runs.along_cons (fun _ _ _ _ _ => rfl) rfl (Runs.along_cons trivial rfl
    (Runs.along_cons ?_ rfl (Runs.along_cons trivial rfl (Runs.along_cons ?_ rfl
      (Runs.along_cons ?_ rfl ?_)))))
  · exact fun _ _ _ _ hwait => absurd ⟨0, _, rfl, rfl⟩ hwait
  · rintro c - - ⟨sender, i, hwriter⟩
    cases hwriter
  · rintro - - - ⟨thread, c, i, out, hc, -, hphase⟩
    fin_cases thread <;> cases hc <;> cases hphase
  · refine Runs.along_cons trivial rfl (Runs.along_cons trivial rfl (Runs.along_cons trivial rfl
      (Runs.along_cons trivial rfl (Runs.along_cons trivial rfl (Runs.along_cons trivial rfl
        (Runs.along_cons trivial rfl (Runs.along_cons trivial rfl (Runs.along_cons ?_ rfl ?_))))))))
    · rintro c - - ⟨sender, i, hwriter⟩
      cases hwriter
    · exact Runs.along_cons trivial rfl (Runs.along_cons trivial rfl (Runs.along_cons trivial rfl
        (Runs.along_cons trivial rfl (Runs.along_cons trivial rfl (Runs.along_cons trivial rfl
          (Runs.along_cons trivial rfl trivial))))))

/-- A call after a timeout: it waits, and nobody has asked. -/
theorem second_call_not_promises :
    ¬∀ (labels : List (Label 1)) (t : State 1),
      Runs.run step (init 1) labels = some t → Promises t := by
  intro h
  obtain ⟨t, hrun, hcall⟩ : ∃ t, Runs.run step (init 1) [.call 0 5 false, .proceed 0 .send,
      .proceed 0 .timeout, .proceed 0 .check, .call 0 5 false] = some t ∧
        t.calls 0 = some ⟨5, true, false, .wait⟩ := ⟨_, rfl, rfl⟩
  exact Bool.noConfusion ((h _ t hrun).asks 0 _ hcall (by decide) rfl)

end KernelModel.Arp
