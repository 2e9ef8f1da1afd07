import KernelModel.NotifModel

/-!
Delivery of notifications, in the runs in which a sweep waits for the consumers at the
head of the queue, and the run that loses a notification otherwise.

Containers are numbered as they are dispatched and swept from the front, so the queue is
always a stretch `lo, …, fresh - 1` of the numbers. What has to be shown is that the
references hold `lo` back: every consumer stands at the head or at `lo` or later.
-/

namespace KernelModel.Notif

open Runs

variable {κ τ : Type}

/-- The containers a consumer counts as a reference to. -/
def refs : Option (Consumer τ) → List ℕ
  | none => []
  | some x =>
    match x.inside with
    | some (_, .took l) => [l]
    | some (_, .referenced l) => [l, x.last]
    | _ => [x.last]

/-- The container a consumer has read last. -/
def readTo (x : Consumer τ) : ℕ :=
  match x.inside with
  | some (_, .took l) => l
  | _ => x.last

def refCount [Fintype κ] (s : State κ τ) (i : ℕ) : ℕ := ∑ c, (refs (s.consumer c)).count i

/-- Container `j` follows container `l` in the queue. -/
def Follows (s : State κ τ) (lo l j : ℕ) : Prop :=
  j < s.fresh ∧ (l = 0 ∧ j = lo ∨ lo ≤ l ∧ j = l + 1)

/-- A consumer that has read up to container `b` got everything since `first`. -/
def ReadUpTo (s : State κ τ) (lo first : ℕ) (received : List Notification) (b : ℕ) : Prop :=
  b = 0 ∧ first + 1 = lo ∧ received = [] ∨
    lo ≤ b ∧ first < b ∧ b < s.fresh ∧ received = (s.log.drop first).take (b - first)

/-- The container a consumer is leaving, when it is between two of them. -/
def Leaving (x : Consumer τ) (l : ℕ) : Prop :=
  ∃ t, x.inside = some (t, .took l) ∨ x.inside = some (t, .referenced l)

structure ConsumerOk (s : State κ τ) (lo : ℕ) (x : Consumer τ) : Prop where
  since : x.first ≤ x.since
  read : ReadUpTo s lo x.first x.received (readTo x)
  leaving : ∀ l, Leaving x l → Follows s lo l x.last

/-- The consumer of a read that has left the consumer's lock. -/
def Pc.past : Pc κ → Option κ
  | .idle | .locked _ => none
  | .checkEvent c _ | .clearEvent c _ | .checkRc c _ | .lockSweep c | .sweep c | .free c _ =>
    some c

/-- The shape of the queue. -/
structure Queue (s : State κ τ) (lo : ℕ) : Prop where
  fresh : s.fresh = s.log.length + 1
  pos : 1 ≤ lo
  live : lo < s.fresh ∨ lo = 1 ∧ s.fresh = 1
  tail : s.tail + 1 = s.fresh
  head : lo < s.fresh ∧ (s.container 0).next = some lo ∨
    s.fresh ≤ lo ∧ (s.container 0).next = none
  next : ∀ i, 1 ≤ i → i < s.fresh → i + 1 < s.fresh ∧ (s.container i).next = some (i + 1) ∨
    i + 1 = s.fresh ∧ (s.container i).next = none
  data : ∀ i, i + 1 < s.fresh → s.log[i]? = some (s.container (i + 1)).data
  freed : ∀ i, (s.container i).freed = true ↔ 1 ≤ i ∧ i < lo

/-- What holds about the threads inside of a read. -/
structure Threads (s : State κ τ) (lo : ℕ) : Prop where
  inside : ∀ t c, s.thread t = .locked c ↔ ∃ x a, s.consumer c = some x ∧ x.inside = some (t, a)
  past : ∀ t c, (s.thread t).past = some c → ∃ x, s.consumer c = some x ∧ 0 < x.last
  sweep : ∀ t c, s.thread t = .sweep c → s.lock = some t
  free : ∀ t c i, s.thread t = .free c i → s.lock = some t ∧ i = lo ∧
    ∀ d, ∀ r ∈ refs (s.consumer d), lo < r

structure Inv [Fintype κ] (s : State κ τ) (lo : ℕ) : Prop where
  queue : Queue s lo
  rc : ∀ i, i < s.fresh → (s.container i).rc = refCount s i
  consumer : ∀ c x, s.consumer c = some x → ConsumerOk s lo x
  threads : Threads s lo

lemma inv_create [Fintype κ] : Inv (notificationDispatcherCreate κ τ) 1 where
  queue :=
    { fresh := rfl, pos := le_rfl, live := .inr ⟨rfl, rfl⟩, tail := rfl
      head := .inr ⟨le_rfl, rfl⟩
      next := fun i h1 h2 => by simp [notificationDispatcherCreate] at h2; omega
      data := fun i h => by simp [notificationDispatcherCreate] at h
      freed := fun i => by simp [notificationDispatcherCreate]; omega }
  rc := fun i _ => by simp [notificationDispatcherCreate, refCount, refs]
  consumer := fun c x h => by simp [notificationDispatcherCreate] at h
  threads :=
    { inside := fun t c => by simp [notificationDispatcherCreate]
      past := fun t c h => by simp [notificationDispatcherCreate, Pc.past] at h
      sweep := fun t c h => by simp [notificationDispatcherCreate] at h
      free := fun t c i h => by simp [notificationDispatcherCreate] at h }

/-! ### What the invariant says -/

lemma Queue.log_length {s : State κ τ} {lo : ℕ} (h : Queue s lo) :
    s.log.length = s.fresh - 1 := by
  have := h.fresh
  omega

/-- Following the queue from container `i` gives the numbers up to the newest one. -/
lemma chain_eq {s : State κ τ} {lo : ℕ} (h : Queue s lo) :
    ∀ (n i : ℕ), 1 ≤ i → i < s.fresh → s.fresh ≤ i + n →
      chain s n (some i) = List.range' i (s.fresh - i)
  | 0, i, _, h2, h3 => by omega
  | n + 1, i, h1, h2, h3 => by
    rw [chain]
    rcases h.next i h1 h2 with ⟨hi, hn⟩ | ⟨hi, hn⟩
    · rw [hn, chain_eq h n (i + 1) (by omega) hi (by omega),
        show s.fresh - i = s.fresh - (i + 1) + 1 by omega, List.range'_succ]
    · rw [hn, show s.fresh - i = 1 by omega]
      cases n <;> simp [chain]

lemma data_range {s : State κ τ} {lo : ℕ} (h : Queue s lo) (i : ℕ) (h1 : 1 ≤ i) :
    (List.range' i (s.fresh - i)).map (fun j => (s.container j).data) = s.log.drop (i - 1) := by
  have hl := h.log_length
  apply List.ext_getElem?
  intro k
  rw [List.getElem?_map, List.getElem?_drop]
  by_cases hk : k < s.fresh - i
  · rw [List.getElem?_range' hk, h.data (i - 1 + k) (by omega)]
    simp only [Option.map_some, Option.some.injEq]
    congr 2
    omega
  · rw [List.getElem?_eq_none (by simp; omega), List.getElem?_eq_none (by omega)]
    simp

lemma pending_eq {s : State κ τ} {lo i j : ℕ} (h : Queue s lo) (hf : Follows s lo i j) :
    pending s i = s.log.drop (j - 1) := by
  obtain ⟨hj, h0⟩ := hf
  have hp := h.pos
  have hn : (s.container i).next = some j := by
    rcases h0 with ⟨rfl, rfl⟩ | ⟨hi, rfl⟩
    · have := h.head
      grind -linarith
    · have := h.next i (by omega) (by omega)
      grind -linarith
  rw [pending, hn, chain_eq h _ j (by omega) hj (by omega), data_range h j (by omega)]

lemma pending_last {s : State κ τ} {lo i : ℕ} (h : Queue s lo)
    (hi : i = 0 ∧ s.fresh ≤ lo ∨ lo ≤ i ∧ i + 1 = s.fresh) : pending s i = [] := by
  have hp := h.pos
  have hn : (s.container i).next = none := by
    rcases hi with ⟨rfl, hlo⟩ | ⟨hi, hf⟩
    · have := h.head
      grind -linarith
    · have := h.next i (by omega) (by omega)
      grind -linarith
  rw [pending, hn]
  cases s.fresh <;> simp [chain]

lemma next_follows {s : State κ τ} {lo i j : ℕ} {x : Consumer τ} (h : Queue s lo)
    (hr : ReadUpTo s lo x.first x.received i) (hn : (s.container i).next = some j) :
    Follows s lo i j := by
  have hp := h.pos
  rcases hr with ⟨rfl, -⟩ | ⟨hlo, -, hi, -⟩
  · have := h.head
    grind -linarith [Follows]
  · have := h.next i (by omega) hi
    grind -linarith [Follows]

lemma readUpTo_next {s : State κ τ} {lo l j : ℕ} {first : ℕ} {r : List Notification}
    (h : Queue s lo) (hr : ReadUpTo s lo first r l) (hf : Follows s lo l j) :
    ReadUpTo s lo first (r ++ [(s.container j).data]) j := by
  have hpos := h.pos
  obtain ⟨hj, h0⟩ := hf
  have hd := h.data (j - 1) (by rcases h0 with ⟨-, rfl⟩ | ⟨-, rfl⟩ <;> omega)
  have hj1 : j - 1 + 1 = j := by rcases h0 with ⟨-, rfl⟩ | ⟨-, rfl⟩ <;> omega
  rw [hj1] at hd
  right
  rcases hr with ⟨rfl, hfirst, rfl⟩ | ⟨hlo, hfl, hl, rfl⟩
  · obtain rfl : j = lo := by rcases h0 with ⟨-, h0⟩ | ⟨h0, -⟩ <;> omega
    refine ⟨le_rfl, by omega, hj, ?_⟩
    rw [show j - first = 0 + 1 by omega, List.take_add_one, List.getElem?_drop,
      show first + 0 = j - 1 by omega, hd]
    simp
  · obtain rfl : j = l + 1 := by rcases h0 with ⟨h0, -⟩ | ⟨-, h0⟩ <;> omega
    refine ⟨by omega, by omega, hj, ?_⟩
    rw [show l + 1 - first = l - first + 1 by omega, List.take_add_one, List.getElem?_drop,
      show first + (l - first) = l + 1 - 1 by omega, hd]
    simp

lemma delivered_of_inv [Fintype κ] {s : State κ τ} {lo : ℕ} (h : Inv s lo) : Delivered s := by
  intro c x hx
  have hq := h.queue
  obtain ⟨hs, hr, -⟩ := h.consumer c x hx
  have hl := hq.log_length
  have hlive := hq.live
  refine ⟨hs, ?_, fun hin => ?_⟩
  · rcases hr with ⟨-, -, hr⟩ | ⟨-, -, -, hr⟩
    · rw [hr]; exact List.nil_prefix
    · rw [hr]; exact List.take_prefix _ _
  · have hb : readTo x = x.last := by simp [readTo, hin]
    rw [hb] at hr
    rcases hr with ⟨h0, hf, hr⟩ | ⟨hlo, hf, hlt, hr⟩
    · rw [hr, List.nil_append, h0]
      by_cases hlt : lo < s.fresh
      · rw [pending_eq hq ⟨hlt, .inl ⟨rfl, rfl⟩⟩, ← hf]
        simp
      · rw [pending_last hq (.inl ⟨rfl, by omega⟩), List.drop_eq_nil_of_le (by omega)]
    · rw [hr]
      by_cases hlt' : x.last + 1 < s.fresh
      · rw [pending_eq hq ⟨hlt', .inr ⟨hlo, rfl⟩⟩]
        conv_rhs => rw [← List.take_append_drop (x.last - x.first) (s.log.drop x.first)]
        rw [List.drop_drop]
        congr 2
        omega
      · rw [pending_last hq (.inr ⟨hlo, by omega⟩), List.append_nil,
          List.take_of_length_le (by simp; omega)]

lemma freedRead_of_inv [Fintype κ] {s : State κ τ} {lo : ℕ} (h : Inv s lo) : FreedRead s := by
  intro i hi c x hx hfi
  have hlt := ((h.queue.freed i).mp hi).2
  have hl := h.queue.log_length
  obtain ⟨-, hr, -⟩ := h.consumer c x hx
  rcases hr with ⟨-, hf, -⟩ | ⟨hlo, hf, hb, hr⟩
  · omega
  · rw [hr]
    simp
    omega

/-! ### Moves that only a thread or a flag notices -/

/-- Only the counts of the containers differ. -/
def SameQueue (f g : ℕ → Container) : Prop :=
  ∀ i, (f i).next = (g i).next ∧ (f i).data = (g i).data ∧ (f i).freed = (g i).freed

lemma sameQueue_update {s : State κ τ} {i : ℕ} {x : Container}
    (hn : x.next = (s.container i).next) (hd : x.data = (s.container i).data)
    (hf : x.freed = (s.container i).freed) :
    SameQueue (Function.update s.container i x) s.container := by
  intro j
  by_cases hj : j = i
  · subst hj; simp [hn, hd, hf]
  · simp [hj]

lemma Queue.of_same {s t : State κ τ} {lo : ℕ} (h : Queue s lo)
    (hc : SameQueue t.container s.container) (hf : t.fresh = s.fresh) (ht : t.tail = s.tail)
    (hl : t.log = s.log) : Queue t lo where
  fresh := by rw [hf, hl]; exact h.fresh
  pos := h.pos
  live := by rw [hf]; exact h.live
  tail := by rw [ht, hf]; exact h.tail
  head := by rw [(hc 0).1, hf]; exact h.head
  next := fun i => by rw [(hc i).1, hf]; exact h.next i
  data := fun i => by rw [(hc (i + 1)).2.1, hf, hl]; exact h.data i
  freed := fun i => by rw [(hc i).2.2]; exact h.freed i

lemma ConsumerOk.of_eq {s t : State κ τ} {lo : ℕ} {x : Consumer τ} (h : ConsumerOk s lo x)
    (hf : t.fresh = s.fresh) (hl : t.log = s.log) : ConsumerOk t lo x where
  since := h.since
  read := by unfold ReadUpTo; rw [hf, hl]; exact h.read
  leaving := by unfold Follows; rw [hf]; exact h.leaving

/-- A consumer without its flags. -/
def core (x : Consumer τ) : ℕ × Option (τ × Section) × ℕ × ℕ × List Notification :=
  (x.last, x.inside, x.since, x.first, x.received)

lemma refs_of_core {o o' : Option (Consumer τ)} (h : o.map core = o'.map core) :
    refs o = refs o' := by
  rcases o with _ | x <;> rcases o' with _ | y <;> simp_all [core, refs]

lemma ConsumerOk.of_core {s : State κ τ} {lo : ℕ} {x y : Consumer τ} (h : ConsumerOk s lo x)
    (hc : core y = core x) : ConsumerOk s lo y := by
  simp only [core, Prod.mk.injEq] at hc
  obtain ⟨h1, h2, h3, h4, h5⟩ := hc
  have hr : readTo y = readTo x := by unfold readTo; rw [h2, h1]
  refine ⟨by rw [h3, h4]; exact h.since, by rw [h4, h5, hr]; exact h.read, fun l hl => ?_⟩
  rw [h1]
  exact h.leaving l (by unfold Leaving at hl ⊢; rwa [h2] at hl)

lemma inv_flags [Fintype κ] {s : State κ τ} {lo : ℕ} {g : κ → Option (Consumer τ)}
    (h : Inv s lo) (hg : ∀ c, (g c).map core = (s.consumer c).map core) :
    Inv { s with consumer := g } lo := by
  have back : ∀ c y, g c = some y → ∃ x, s.consumer c = some x ∧ core x = core y := by
    intro c y hy
    have := hg c
    rw [hy, Option.map_some, eq_comm, Option.map_eq_some_iff] at this
    exact this
  have forth : ∀ c x, s.consumer c = some x → ∃ y, g c = some y ∧ core y = core x := by
    intro c x hx
    have := hg c
    rw [hx, Option.map_some, Option.map_eq_some_iff] at this
    exact this
  refine ⟨h.queue.of_same (fun _ => ⟨rfl, rfl, rfl⟩) rfl rfl rfl, fun i hi => ?_, fun c y hy => ?_,
    fun t c => ?_, fun t c ht => ?_, h.threads.sweep, fun t c i ht => ?_⟩
  · rw [h.rc i hi]
    exact Finset.sum_congr rfl fun c _ => by rw [refs_of_core (hg c)]
  · obtain ⟨x, hx, hc⟩ := back c y hy
    exact ((h.consumer c x hx).of_core hc.symm).of_eq rfl rfl
  · rw [h.threads.inside t c]
    constructor
    · rintro ⟨x, a, hx, ha⟩
      obtain ⟨y, hy, hc⟩ := forth c x hx
      exact ⟨y, a, hy, by simp only [core, Prod.mk.injEq] at hc; rw [hc.2.1, ha]⟩
    · rintro ⟨y, a, hy, ha⟩
      obtain ⟨x, hx, hc⟩ := back c y hy
      exact ⟨x, a, hx, by simp only [core, Prod.mk.injEq] at hc; rw [hc.2.1, ha]⟩
  · obtain ⟨x, hx, hpos⟩ := h.threads.past t c ht
    obtain ⟨y, hy, hc⟩ := forth c x hx
    exact ⟨y, hy, by simp only [core, Prod.mk.injEq] at hc; rw [hc.1]; exact hpos⟩
  · obtain ⟨h1, h2, h3⟩ := h.threads.free t c i ht
    exact ⟨h1, h2, fun d r hr => h3 d r (by rwa [← refs_of_core (hg d)])⟩

variable [Fintype κ] [DecidableEq τ]

lemma inv_setThread {s : State κ τ} {lo : ℕ} {t : τ} {p : Pc κ} {l : Option τ} (h : Inv s lo)
    (hnot : ∀ c, s.thread t ≠ .locked c) (hp : p.past = none ∨ p.past = (s.thread t).past)
    (hpn : ∀ c, p ≠ .locked c)
    (hlock : s.lock = l ∨ s.lock = none ∨ s.lock = some t)
    (hs : ∀ c, p = .sweep c → l = some t)
    (hf : ∀ c i, p = .free c i → l = some t ∧ i = lo ∧
      ∀ d, ∀ r ∈ refs (s.consumer d), lo < r) :
    Inv (setThread { s with lock := l } t p) lo where
  queue := h.queue.of_same (fun _ => ⟨rfl, rfl, rfl⟩) rfl rfl rfl
  rc := h.rc
  consumer := fun c x hx => (h.consumer c x hx).of_eq rfl rfl
  threads :=
    { inside := fun u c => by
        have hu := h.threads.inside u c
        by_cases hut : u = t
        · subst hut
          simpa [setThread, hpn c] using fun hc => hnot c (hu.mpr hc)
        · simpa [setThread, hut] using hu
      past := fun u c hu => by
        by_cases hut : u = t
        · subst hut
          simp only [setThread, Function.update_self] at hu
          rcases hp with hp | hp
          · rw [hp] at hu; cases hu
          · exact h.threads.past u c (hp ▸ hu)
        · exact h.threads.past u c (by simpa [setThread, hut] using hu)
      sweep := fun u c hu => by
        by_cases hut : u = t
        · subst hut; exact hs c (by simpa [setThread] using hu)
        · have := h.threads.sweep u c (by simpa [setThread, hut] using hu)
          simp only [setThread]
          grind -linarith
      free := fun u c i hu => by
        by_cases hut : u = t
        · subst hut; exact hf c i (by simpa [setThread] using hu)
        · have := h.threads.free u c i (by simpa [setThread, hut] using hu)
          simp only [setThread]
          grind }

variable [DecidableEq κ]

/-- A thread moves inside a consumer's lock, into it or out of it: the consumer's
references change together with the counts. -/
lemma inv_inside {s : State κ τ} {lo : ℕ} {c : κ} {t : τ} {x y : Consumer τ} {p : Pc κ}
    {f : ℕ → Container} (h : Inv s lo) (hx : s.consumer c = some x)
    (hsame : SameQueue f s.container)
    (hrc : ∀ i, i < s.fresh →
      (f i).rc + (refs (some x)).count i = (s.container i).rc + (refs (some y)).count i)
    (hrefs : (∀ r ∈ refs (some x), lo < r) → ∀ r ∈ refs (some y), lo < r)
    (hok : ConsumerOk s lo y) (hlast : 0 < x.last → 0 < y.last)
    (hbefore : s.thread t = .idle ∧ x.inside = none ∨ s.thread t = .locked c)
    (hafter : p = .locked c ∧ (∃ a, y.inside = some (t, a)) ∨
      y.inside = none ∧ (∃ l, p = .checkEvent c l) ∧ 0 < y.last) :
    Inv (setThread (setConsumer { s with container := f } c y) t p) lo := by
  have howner : ∀ u a, x.inside = some (u, a) → u = t := by
    intro u a ha
    rcases hbefore with ⟨-, hn⟩ | hl
    · rw [hn] at ha; cases ha
    · obtain ⟨z, b, hz, hb⟩ := (h.threads.inside t c).mp hl
      rw [hx, Option.some.injEq] at hz
      subst hz
      rw [hb] at ha
      cases ha; rfl
  refine ⟨h.queue.of_same hsame rfl rfl rfl, fun i hi => ?_, fun d z hz => ?_, ?_, ?_, ?_, ?_⟩
  · have := sum_update (fun o => (refs o).count i) s.consumer c (some y)
    simp only [hx] at this
    have h0 := h.rc i hi
    have h1 := hrc i hi
    simp only [refCount, setConsumer, setThread] at h0 ⊢
    omega
  · by_cases hd : d = c
    · subst hd
      simp only [setConsumer, setThread, Function.update_self, Option.some.injEq] at hz
      exact hz ▸ hok.of_eq rfl rfl
    · exact (h.consumer d z (by simpa [setConsumer, setThread, hd] using hz)).of_eq rfl rfl
  · intro u d
    have hu := h.threads.inside u d
    have ht := h.threads.inside t d
    by_cases hut : u = t <;> by_cases hd : d = c
    · subst hut hd
      rcases hafter with ⟨rfl, a, ha⟩ | ⟨hn, ⟨l, rfl⟩, -⟩
      · simp [setThread, setConsumer, ha]
      · simp [setThread, setConsumer, hn]
    · subst hut
      have hnd : s.thread u ≠ .locked d := by
        rcases hbefore with ⟨hb, -⟩ | hb <;> rw [hb] <;> simp [Ne.symm hd]
      have hpd : p ≠ .locked d := by
        rcases hafter with ⟨rfl, -⟩ | ⟨-, ⟨l, rfl⟩, -⟩ <;> simp [Ne.symm hd]
      simpa [setThread, setConsumer, hd, hpd] using fun hc => hnd (hu.mpr hc)
    · subst hd
      have hn : s.thread u ≠ .locked d := by
        intro hl
        obtain ⟨z, b, hz, hb⟩ := hu.mp hl
        rw [hx, Option.some.injEq] at hz
        exact hut (howner u b (hz ▸ hb))
      have hy : ∀ a, y.inside ≠ some (u, a) := by
        intro a ha
        rcases hafter with ⟨-, b, hb⟩ | ⟨hb, -⟩ <;> rw [hb] at ha <;> cases ha
        exact hut rfl
      simp [setThread, setConsumer, hut, hn, hy]
    · simpa [setThread, setConsumer, hut, hd] using hu
  · intro u d hu
    have key : ∃ z, s.consumer d = some z ∧ 0 < z.last ∨ d = c ∧ 0 < y.last := by
      by_cases hut : u = t
      · subst hut
        simp only [setThread, Function.update_self] at hu
        rcases hafter with ⟨rfl, -⟩ | ⟨-, ⟨l, rfl⟩, hpos⟩
        · cases hu
        · simp only [Pc.past, Option.some.injEq] at hu
          exact ⟨x, .inr ⟨hu.symm, hpos⟩⟩
      · obtain ⟨z, hz⟩ := h.threads.past u d (by simpa [setThread, setConsumer, hut] using hu)
        exact ⟨z, .inl hz⟩
    obtain ⟨z, ⟨hz, hpos⟩ | ⟨rfl, hpos⟩⟩ := key
    · by_cases hd : d = c
      · subst hd
        rw [hx, Option.some.injEq] at hz
        exact ⟨y, by simp [setConsumer, setThread], hlast (hz ▸ hpos)⟩
      · exact ⟨z, by simpa [setConsumer, setThread, hd] using hz, hpos⟩
    · exact ⟨y, by simp [setConsumer, setThread], hpos⟩
  · intro u d hu
    by_cases hut : u = t
    · subst hut
      simp only [setThread, Function.update_self] at hu
      rcases hafter with ⟨rfl, -⟩ | ⟨-, ⟨l, rfl⟩, -⟩ <;> cases hu
    · exact h.threads.sweep u d (by simpa [setThread, setConsumer, hut] using hu)
  · intro u d i hu
    by_cases hut : u = t
    · subst hut
      simp only [setThread, Function.update_self] at hu
      rcases hafter with ⟨rfl, -⟩ | ⟨-, ⟨l, rfl⟩, -⟩ <;> cases hu
    · obtain ⟨h1, h2, h3⟩ := h.threads.free u d i
        (by simpa [setThread, setConsumer, hut] using hu)
      refine ⟨h1, h2, fun e r hr => ?_⟩
      by_cases he : e = c
      · subst he
        simp only [setConsumer, setThread, Function.update_self] at hr
        exact hrefs (fun r' hr' => h3 e r' (hx ▸ hr')) r hr
      · exact h3 e r (by simpa [setConsumer, setThread, he] using hr)

/-! ### The moves -/

lemma inv_getStart {s s' : State κ τ} {lo : ℕ} {t : τ} {c : κ} (h : Inv s lo)
    (hs : getStart s t c = some s') : Inv s' lo := by
  simp only [getStart, Option.bind_eq_some_iff] at hs
  obtain ⟨x, hx, hs⟩ := hs
  split_ifs at hs with h1 h2
  · cases hs; exact h
  · cases hs
    simp only [not_or, not_not, Option.not_isSome_iff_eq_none] at h1
    have hr : refs (some { x with inside := some (t, Section.opened) }) = refs (some x) := by
      simp [refs, h1.2.1]
    have hok := h.consumer c x hx
    refine inv_inside h hx (fun _ => ⟨rfl, rfl, rfl⟩) (by simp [hr]) (by simp [hr])
      ⟨hok.since, ?_, by simp [Leaving]⟩ id (.inl ⟨h1.1, h1.2.1⟩) (.inl ⟨rfl, _, rfl⟩)
    simpa [readTo, h1.2.1] using hok.read

lemma inv_getAdvance {s s' : State κ τ} {lo : ℕ} {t : τ} (h : Inv s lo)
    (hs : getAdvance s t = some s') : Inv s' lo := by
  unfold getAdvance at hs
  split at hs <;> try cases hs
  next c hc =>
    rw [Option.bind_eq_some_iff] at hs
    obtain ⟨x, hx, hs⟩ := hs
    split at hs <;> try cases hs
    next u hin =>
      rw [Option.map_eq_some_iff] at hs
      obtain ⟨j, hj, rfl⟩ := hs
      have hok := h.consumer c x hx
      have hread := hok.read
      simp only [readTo, hin] at hread
      have hfol := next_follows h.queue hread hj
      have hpos := h.queue.pos
      have := inv_inside (t := t) (p := .locked c) (f := s.container)
        (y := { x with last := j, inside := some (t, Section.took x.last) }) h hx
        (fun _ => ⟨rfl, rfl, rfl⟩) (by simp [refs, hin]) (by simp [refs, hin])
        ⟨hok.since, by simpa [readTo] using hread, ?_⟩ (fun _ => ?_) (.inr hc)
        (.inl ⟨rfl, _, rfl⟩)
      · have he : Function.update s.thread t (.locked c) = s.thread := by
          rw [← hc]; exact Function.update_eq_self t s.thread
        simpa [setThread, setConsumer, he] using this
      · rintro l ⟨v, hl | hl⟩
        · cases hl; exact hfol
        · cases hl
      · rcases hfol with ⟨-, ⟨-, rfl⟩ | ⟨-, rfl⟩⟩
        · exact hpos
        · exact Nat.succ_pos _

lemma inv_getReference {s s' : State κ τ} {lo : ℕ} {t : τ} (h : Inv s lo)
    (hs : getReference s t = some s') : Inv s' lo := by
  unfold getReference at hs
  split at hs <;> try cases hs
  next c hc =>
    rw [Option.bind_eq_some_iff] at hs
    obtain ⟨x, hx, hs⟩ := hs
    split at hs <;> try cases hs
    next u l hin =>
      have hok := h.consumer c x hx
      have hread := hok.read
      simp only [readTo, hin] at hread
      have hfol := hok.leaving l ⟨u, .inl hin⟩
      have := inv_inside (t := t) (p := .locked c)
        (f := Function.update s.container x.last (addRc (s.container x.last)))
        (y := { x with
          inside := some (t, Section.referenced l)
          received := x.received ++ [(s.container x.last).data] }) h hx
        (sameQueue_update rfl rfl rfl) (fun i _ => ?_) ?_
        ⟨hok.since, by simpa [readTo] using readUpTo_next h.queue hread hfol, ?_⟩ id (.inr hc)
        (.inl ⟨rfl, _, rfl⟩)
      · have he : Function.update s.thread t (.locked c) = s.thread := by
          rw [← hc]; exact Function.update_eq_self t s.thread
        simpa [setThread, setConsumer, setContainer, he] using this
      · by_cases hi : i = x.last
        · subst hi; simp [refs, hin, addRc, List.count_cons]; omega
        · simp [refs, hin, hi, List.count_cons, Ne.symm hi]
      · simp only [refs, hin, List.mem_cons, List.not_mem_nil, or_false, forall_eq,
          forall_eq_or_imp]
        intro hl
        refine ⟨hl, ?_⟩
        rcases hfol with ⟨-, ⟨rfl, -⟩ | ⟨-, h1⟩⟩ <;> omega
      · rintro l' ⟨v, hl | hl⟩
        · cases hl
        · cases hl; exact hfol

lemma inv_getRelease {s s' : State κ τ} {lo : ℕ} {t : τ} (h : Inv s lo)
    (hs : getRelease s t = some s') : Inv s' lo := by
  unfold getRelease at hs
  split at hs <;> try cases hs
  next c hc =>
    rw [Option.bind_eq_some_iff] at hs
    obtain ⟨x, hx, hs⟩ := hs
    split at hs <;> try cases hs
    next u l hin =>
      have hok := h.consumer c x hx
      have hread := hok.read
      simp only [readTo, hin] at hread
      have hfol := hok.leaving l ⟨u, .inr hin⟩
      have hpos := h.queue.pos
      have hlt : l < s.fresh := by rcases hfol with ⟨h1, ⟨rfl, -⟩ | ⟨-, h2⟩⟩ <;> omega
      have hrc : 0 < (s.container l).rc := by
        rw [h.rc l hlt]
        refine lt_of_lt_of_le ?_ (Finset.single_le_sum
          (f := fun d => (refs (s.consumer d)).count l) (fun _ _ => Nat.zero_le _)
          (Finset.mem_univ c))
        simp [hx, refs, hin]
      refine inv_inside h hx (sameQueue_update rfl rfl rfl) (fun i _ => ?_) ?_
        ⟨hok.since, by simpa [readTo] using hread, by simp [Leaving]⟩ id (.inr hc)
        (.inr ⟨rfl, ⟨l, rfl⟩, ?_⟩)
      · by_cases hi : i = l
        · subst hi; simp [refs, hin, subRc, List.count_cons]; omega
        · simp [refs, hin, hi, List.count_cons, Ne.symm hi]
      · simp [refs, hin]
      · rcases hfol with ⟨-, ⟨-, h1⟩ | ⟨-, h1⟩⟩ <;> simp only <;> omega

omit [DecidableEq κ] in
lemma inv_getCheckEvent {s s' : State κ τ} {lo : ℕ} {t : τ} (h : Inv s lo)
    (hs : getCheckEvent s t = some s') : Inv s' lo := by
  unfold getCheckEvent at hs
  split at hs <;> try cases hs
  next c l hc =>
    rw [Option.bind_eq_some_iff] at hs
    obtain ⟨x, hx, hs⟩ := hs
    split_ifs at hs <;> cases hs <;>
      exact inv_setThread h (by simp [hc]) (.inr (by simp [hc, Pc.past])) (by simp) (.inl rfl)
        (by simp) (by simp)

lemma inv_getClearEvent {s s' : State κ τ} {lo : ℕ} {t : τ} (h : Inv s lo)
    (hs : getClearEvent s t = some s') : Inv s' lo := by
  unfold getClearEvent at hs
  split at hs <;> try cases hs
  next c l hc =>
    rw [Option.bind_eq_some_iff] at hs
    obtain ⟨x, hx, hs⟩ := hs
    split_ifs at hs <;> cases hs
    · have h1 : Inv (setConsumer s c { x with event := false }) lo := by
        refine inv_flags h fun d => ?_
        by_cases hd : d = c
        · subst hd; simp [hx, core]
        · simp [hd]
      exact inv_setThread h1 (by simp [setConsumer, hc])
        (.inr (by simp [setConsumer, hc, Pc.past])) (by simp) (.inl rfl) (by simp) (by simp)
    · exact inv_setThread h (by simp [hc]) (.inr (by simp [hc, Pc.past])) (by simp) (.inl rfl)
        (by simp) (by simp)

omit [DecidableEq κ] in
lemma inv_getCheckRc {s s' : State κ τ} {lo : ℕ} {t : τ} {seen : Bool} (h : Inv s lo)
    (hs : getCheckRc s t seen = some s') : Inv s' lo := by
  unfold getCheckRc at hs
  split at hs <;> try cases hs
  next c l hc =>
    split_ifs at hs <;> cases hs
    · exact inv_setThread h (by simp [hc]) (.inl rfl) (by simp) (.inl rfl) (by simp) (by simp)
    · exact inv_setThread h (by simp [hc]) (.inr (by simp [hc, Pc.past])) (by simp) (.inl rfl)
        (by simp) (by simp)

omit [DecidableEq κ] in
lemma inv_getLockSweep {s s' : State κ τ} {lo : ℕ} {t : τ} (h : Inv s lo)
    (hs : getLockSweep s t = some s') : Inv s' lo := by
  unfold getLockSweep at hs
  split at hs <;> try cases hs
  next c hc =>
    split_ifs at hs with hl
    cases hs
    exact inv_setThread h (by simp [hc]) (.inr (by simp [hc, Pc.past])) (by simp)
      (.inr (.inl (by simpa using hl))) (by simp) (by simp)

omit [DecidableEq τ] [DecidableEq κ] in
lemma not_mem_refs {s : State κ τ} {lo i : ℕ} (h : Inv s lo) (hi : i < s.fresh)
    (h0 : (s.container i).rc = 0) (d : κ) : i ∉ refs (s.consumer d) := by
  rw [h.rc i hi, refCount, Finset.sum_eq_zero_iff] at h0
  exact List.count_eq_zero.mp (h0 d (Finset.mem_univ d))

omit [Fintype κ] [DecidableEq τ] [DecidableEq κ] in
lemma ref_bound {s : State κ τ} {lo r : ℕ} {x : Consumer τ} (h : ConsumerOk s lo x)
    (hr : r ∈ refs (some x)) : r = 0 ∨ lo ≤ r := by
  have hread := h.read
  unfold refs at hr
  unfold readTo at hread
  rcases hin : x.inside with _ | ⟨t, _ | l | l⟩ <;> simp only [hin] at hr hread
  · grind -linarith [ReadUpTo]
  · grind -linarith [ReadUpTo]
  · grind -linarith [ReadUpTo]
  · have := h.leaving l ⟨t, .inr hin⟩
    grind -linarith [ReadUpTo, Follows]

omit [DecidableEq κ] in
/-- The sweep goes on to free a container only if all consumers are past it. -/
lemma inv_getSweep {s s' : State κ τ} {lo : ℕ} {t : τ} (h : Inv s lo)
    (hok : HeadLeft s (.sweep t)) (hs : getSweep s t = some s') : Inv s' lo := by
  unfold getSweep at hs
  split at hs <;> try cases hs
  next c hc =>
    have hl := h.threads.sweep t c hc
    have done : Inv (setThread { s with lock := none } t .idle) lo :=
      inv_setThread h (by simp [hc]) (.inl rfl) (by simp) (.inr (.inr hl)) (by simp) (by simp)
    split at hs
    next i hi =>
      split_ifs at hs with hrc
      · cases hs
        have hlo : lo < s.fresh ∧ i = lo := by
          have := h.queue.head
          grind -linarith
        obtain ⟨hlt, rfl⟩ := hlo
        have h0 := hok i hi hrc
        have hfree : ∀ d, ∀ r ∈ refs (s.consumer d), i < r := by
          intro d r hr
          have h1 : r ≠ i := fun e => not_mem_refs h hlt hrc d (e ▸ hr)
          have h2 : r ≠ 0 := fun e => not_mem_refs h (by omega) h0 d (e ▸ hr)
          rcases hd : s.consumer d with _ | x
          · rw [hd] at hr; simp [refs] at hr
          · have := ref_bound (h.consumer d x hd) (hd ▸ hr)
            omega
        exact inv_setThread h (by simp [hc]) (.inr (by simp [hc, Pc.past])) (by simp) (.inl rfl)
          (by simp) fun d j hj => by cases hj; exact ⟨hl, rfl, hfree⟩
      · cases hs; exact done
    next => cases hs; exact done

omit [Fintype κ] [DecidableEq τ] [DecidableEq κ] in
/-- A consumer whose references are all past `lo` does not notice that `lo` goes. -/
lemma ConsumerOk.past {s : State κ τ} {lo : ℕ} {x : Consumer τ} (h : ConsumerOk s lo x)
    (hr : ∀ r ∈ refs (some x), lo < r) :
    ConsumerOk s (lo + 1) x ∧ lo < x.last ∧ x.last < s.fresh := by
  have hread := h.read
  have hleave := h.leaving
  unfold refs at hr
  unfold readTo at hread
  rcases hin : x.inside with _ | ⟨u, _ | l | l⟩ <;>
    simp only [hin, List.mem_cons, List.not_mem_nil, or_false, forall_eq, forall_eq_or_imp]
      at hr hread
  · refine ⟨⟨h.since, ?_, by simp [Leaving, hin]⟩, hr, ?_⟩
    · unfold ReadUpTo at hread ⊢
      simp only [readTo, hin]
      grind -linarith
    · grind -linarith [ReadUpTo]
  · refine ⟨⟨h.since, ?_, by simp [Leaving, hin]⟩, hr, ?_⟩
    · unfold ReadUpTo at hread ⊢
      simp only [readTo, hin]
      grind -linarith
    · grind -linarith [ReadUpTo]
  · have hfol := hleave l ⟨u, .inl hin⟩
    refine ⟨⟨h.since, ?_, ?_⟩, ?_, hfol.1⟩
    · unfold ReadUpTo at hread ⊢
      simp only [readTo, hin]
      grind -linarith
    · rintro l' ⟨v, hl' | hl'⟩ <;> rw [hin] at hl' <;> cases hl'
      grind -linarith [Follows]
    · grind -linarith [Follows]
  · have hfol := hleave l ⟨u, .inr hin⟩
    refine ⟨⟨h.since, ?_, ?_⟩, hr.2, hfol.1⟩
    · unfold ReadUpTo at hread ⊢
      simp only [readTo, hin]
      grind -linarith
    · rintro l' ⟨v, hl' | hl'⟩ <;> rw [hin] at hl' <;> cases hl'
      grind -linarith [Follows]

omit [DecidableEq κ] in
/-- The sweep frees the container at the front, and the queue starts one later. -/
lemma inv_getFree {s s' : State κ τ} {lo : ℕ} {t : τ} (h : Inv s lo)
    (hs : getFree s t = some s') : Inv s' (lo + 1) := by
  unfold getFree at hs
  split at hs <;> try cases hs
  next c i hc =>
    obtain ⟨hlock, rfl, hrefs⟩ := h.threads.free t c i hc
    have hq := h.queue
    have hpos := hq.pos
    obtain ⟨x, hx, -⟩ := h.threads.past t c (by simp [hc, Pc.past])
    obtain ⟨-, h1, h2⟩ := (h.consumer c x hx).past (hx ▸ hrefs c)
    have hnext : (s.container i).next = some (i + 1) := by
      have := hq.next i hpos (by omega)
      grind -linarith
    have hget : ∀ j, Function.update (Function.update s.container 0
        (setNext (s.container 0) (s.container i).next)) i (setFreed (s.container i)) j =
        if j = i then setFreed (s.container i)
        else if j = 0 then setNext (s.container 0) (some (i + 1)) else s.container j := by
      intro j
      rw [hnext]
      simp only [Function.update_apply]
    refine ⟨⟨hq.fresh, by omega, .inl (by simp [setThread, setContainer]; omega), hq.tail, ?_, ?_,
      ?_, ?_⟩, ?_, ?_, ?_, ?_, ?_, ?_⟩ <;> simp only [setThread, setContainer, hget]
    · exact .inl ⟨by omega, by rw [if_neg (by omega)]; rfl⟩
    · intro j hj1 hj2
      have := hq.next j hj1 hj2
      by_cases hji : j = i
      · subst hji; simpa [setFreed] using this
      · simpa [hji, show j ≠ 0 by omega] using this
    · intro j hj
      have := hq.data j hj
      by_cases hji : j + 1 = i
      · rw [if_pos hji, ← hji]; exact this
      · simpa [hji] using this
    · intro j
      have := hq.freed j
      by_cases hji : j = i
      · subst hji; simp [setFreed]; omega
      · by_cases hj0 : j = 0
        · subst hj0; simp [hji, setNext]; simpa using this
        · simp only [hji, hj0, if_false]; rw [this]; omega
    · intro j hj
      have := h.rc j hj
      by_cases hji : j = i
      · subst hji; simpa [setFreed, refCount] using this
      · by_cases hj0 : j = 0
        · subst hj0; simpa [hji, setNext, refCount] using this
        · simpa [hji, hj0, refCount] using this
    · intro d y hy
      exact ((h.consumer d y hy).past (hy ▸ hrefs d)).1.of_eq rfl rfl
    · intro u d
      have hu := h.threads.inside u d
      by_cases hut : u = t
      · subst hut
        rw [hc] at hu
        simpa using hu
      · simpa [hut] using hu
    · intro u d hu
      by_cases hut : u = t
      · subst hut
        exact h.threads.past u d (by simpa [hc, Pc.past] using hu)
      · exact h.threads.past u d (by simpa [hut] using hu)
    · intro u d hu
      by_cases hut : u = t
      · rw [hut]; exact hlock
      · exact h.threads.sweep u d (by simpa [hut] using hu)
    · intro u d j hu
      by_cases hut : u = t
      · subst hut; simp at hu
      · have := (h.threads.free u d j (by simpa [hut] using hu)).1
        rw [hlock, Option.some.injEq] at this
        exact absurd this.symm hut

omit [Fintype κ] [DecidableEq τ] [DecidableEq κ] in
lemma ref_lt {s : State κ τ} {lo r : ℕ} {x : Consumer τ} (hq : Queue s lo)
    (h : ConsumerOk s lo x) (hr : r ∈ refs (some x)) : r < s.fresh := by
  have hread := h.read
  have hf := hq.fresh
  unfold refs at hr
  unfold readTo at hread
  rcases hin : x.inside with _ | ⟨t, _ | l | l⟩ <;> simp only [hin] at hr hread
  · grind -linarith [ReadUpTo]
  · grind -linarith [ReadUpTo]
  · grind -linarith [ReadUpTo]
  · have := h.leaving l ⟨t, .inr hin⟩
    grind -linarith [ReadUpTo, Follows]

omit [Fintype κ] [DecidableEq τ] [DecidableEq κ] in
lemma ConsumerOk.grow {s t : State κ τ} {lo : ℕ} {x : Consumer τ} {n : Notification}
    (hq : Queue s lo) (h : ConsumerOk s lo x) (hf : t.fresh = s.fresh + 1)
    (hl : t.log = s.log ++ [n]) : ConsumerOk t lo x where
  since := h.since
  read := by
    have hlen := hq.log_length
    rcases h.read with h0 | ⟨h1, h2, h3, h4⟩
    · exact .inl h0
    · refine .inr ⟨h1, h2, by omega, ?_⟩
      rw [h4, hl, List.drop_append_of_le_length (by omega),
        List.take_append_of_le_length (by simp; omega)]
  leaving := fun l hl => by
    have := h.leaving l hl
    grind -linarith [Follows]

omit [DecidableEq τ] [DecidableEq κ] in
lemma inv_dispatch {s s' : State κ τ} {lo : ℕ} {n : Notification} (h : Inv s lo)
    (hs : notificationDispatcherDispatch s n = some s') : Inv s' lo := by
  simp only [notificationDispatcherDispatch] at hs
  split_ifs at hs with hlock
  cases hs
  have hq := h.queue
  obtain ⟨hfresh, hpos, hlive, htail, hhead, hnext, hdata, hfreed⟩ := hq
  have hlen := h.queue.log_length
  set f := Function.update (Function.update s.container s.fresh ⟨none, n, 0, false⟩) s.tail
    (setNext (s.container s.tail) (some s.fresh)) with hf
  have hget : ∀ j, f j = if j = s.tail then setNext (s.container s.tail) (some s.fresh)
      else if j = s.fresh then ⟨none, n, 0, false⟩ else s.container j := by
    intro j
    simp only [hf, Function.update_apply]
  have hrc : ∀ c, s.fresh ∉ refs (s.consumer c) := by
    intro c hc
    rcases hx : s.consumer c with _ | x
    · rw [hx] at hc; simp [refs] at hc
    · exact absurd (ref_lt h.queue (h.consumer c x hx) (hx ▸ hc)) (lt_irrefl _)
  have h1 : Inv
      { s with
        container := f
        tail := s.fresh
        fresh := s.fresh + 1
        log := s.log ++ [n] } lo := by
    refine ⟨⟨by simp [hfresh], hpos, .inl (by simp only; omega), rfl, ?_, ?_, ?_, ?_⟩, ?_, ?_,
      h.threads.inside, h.threads.past, h.threads.sweep, h.threads.free⟩ <;> simp only [hget]
    · by_cases h0 : 0 = s.tail
      · left
        rw [if_pos h0]
        exact ⟨by omega, by simp only [setNext]; congr 1; omega⟩
      · rw [if_neg h0, if_neg (by omega)]
        grind -linarith
    · intro i hi1 hi2
      by_cases hit : i = s.tail
      · left
        rw [if_pos hit]
        exact ⟨by omega, by simp only [setNext]; congr 1; omega⟩
      · by_cases hif : i = s.fresh
        · right; simp [hif, show s.fresh ≠ s.tail by omega]
        · rw [if_neg hit, if_neg hif]
          have := hnext i hi1 (by omega)
          grind -linarith
    · intro i hi
      by_cases hif : i + 1 = s.fresh
      · have hil : i = s.log.length := by omega
        rw [if_neg (by omega), if_pos hif, hil]
        simp
      · rw [List.getElem?_append_left (by omega), hdata i (by omega), if_neg hif]
        split_ifs with hit
        · simp [hit, setNext]
        · rfl
    · intro i
      have := hfreed i
      split_ifs with hit hif
      · simpa [setNext, ← hit] using this
      · simp; omega
      · exact this
    · intro i hi
      split_ifs with hit hif
      · exact Eq.trans (by rw [hit]; rfl) (h.rc i (by omega))
      · rw [hif]
        exact (Finset.sum_eq_zero fun c _ => List.count_eq_zero.mpr (hrc c)).symm
      · exact h.rc i (by omega)
    · intro c x hx
      exact (h.consumer c x hx).grow h.queue rfl rfl
  refine inv_flags h1 fun c => ?_
  rw [Option.map_map]
  rfl

omit [DecidableEq τ] in
lemma inv_consumerCreate {s s' : State κ τ} {lo : ℕ} {c : κ} (h : Inv s lo)
    (hok : HeadLeft s (.create c)) (hs : notificationConsumerCreate s c = some s') :
    Inv s' lo := by
  simp only [notificationConsumerCreate] at hs
  split_ifs at hs with hc
  cases hs
  simp only [Option.not_isSome_iff_eq_none] at hc
  have hq := h.queue
  have hlen := hq.log_length
  have hfirst : s.log.length - (pending s 0).length + 1 = lo := by
    have := hq.pos
    have hlive := hq.live
    by_cases hlt : lo < s.fresh
    · rw [pending_eq hq ⟨hlt, .inl ⟨rfl, rfl⟩⟩, List.length_drop]
      omega
    · rw [pending_last hq (.inl ⟨rfl, by omega⟩)]
      simp
      omega
  refine ⟨hq.of_same (sameQueue_update rfl rfl rfl) rfl rfl rfl, fun i hi => ?_, fun d x hx => ?_,
    ⟨fun t d => ?_, fun t d ht => ?_, h.threads.sweep, fun t d i ht => ?_⟩⟩
  · have hsum := sum_update (fun o => (refs o).count i) s.consumer c (some ⟨0, none, false, false,
      s.log.length, s.log.length - (pending s 0).length, []⟩)
    have h0 := h.rc i hi
    have hnew : refs (some (⟨0, none, false, false, s.log.length,
      s.log.length - (pending s 0).length, []⟩ : Consumer τ)) = [0] := rfl
    have hold : refs (none : Option (Consumer τ)) = [] := rfl
    simp only [hc, hnew, hold, List.count_nil] at hsum
    simp only [refCount, setConsumer, setContainer] at h0 ⊢
    by_cases hi0 : i = 0
    · subst hi0
      simp only [Function.update_self, addRc, List.count_singleton_self] at hsum ⊢
      omega
    · simp only [Function.update_of_ne hi0,
        List.count_singleton, beq_iff_eq, Ne.symm hi0, if_false] at hsum ⊢
      omega
  · by_cases hd : d = c
    · subst hd
      simp only [setConsumer, Function.update_self, Option.some.injEq] at hx
      subst hx
      exact ⟨Nat.sub_le _ _, .inl ⟨rfl, hfirst, rfl⟩, by simp [Leaving]⟩
    · exact (h.consumer d x (by simpa [setConsumer, setContainer, hd] using hx)).of_eq rfl rfl
  · have := h.threads.inside t d
    by_cases hd : d = c
    · subst hd
      simpa [setConsumer, setContainer, hc] using this
    · simpa [setConsumer, setContainer, hd] using this
  · obtain ⟨x, hx, hpos⟩ := h.threads.past t d ht
    have hd : d ≠ c := by rintro rfl; rw [hc] at hx; cases hx
    exact ⟨x, by simpa [setConsumer, setContainer, hd] using hx, hpos⟩
  · have hfree := hok t
    rw [show s.thread t = .free d i from ht] at hfree
    cases hfree

omit [DecidableEq τ] in
lemma inv_consumerLink {s s' : State κ τ} {lo : ℕ} {c : κ} (h : Inv s lo)
    (hs : notificationConsumerLink s c = some s') : Inv s' lo := by
  simp only [notificationConsumerLink, Option.bind_eq_some_iff] at hs
  obtain ⟨x, hx, hs⟩ := hs
  split_ifs at hs
  cases hs
  refine inv_flags h fun d => ?_
  by_cases hd : d = c
  · subst hd; simp [hx, core]
  · simp [hd]

/-- **One move** keeps the invariant when the sweep waits for consumers at the head. -/
lemma inv_step {s s' : State κ τ} {lo : ℕ} {a : Action κ τ} (h : Inv s lo) (hok : HeadLeft s a)
    (hs : step s a = some s') : ∃ lo', Inv s' lo' := by
  cases a with
  | dispatch n => exact ⟨lo, inv_dispatch h hs⟩
  | create c => exact ⟨lo, inv_consumerCreate h hok hs⟩
  | link c => exact ⟨lo, inv_consumerLink h hs⟩
  | get t c => exact ⟨lo, inv_getStart h hs⟩
  | advance t => exact ⟨lo, inv_getAdvance h hs⟩
  | reference t => exact ⟨lo, inv_getReference h hs⟩
  | release t => exact ⟨lo, inv_getRelease h hs⟩
  | checkEvent t => exact ⟨lo, inv_getCheckEvent h hs⟩
  | clearEvent t => exact ⟨lo, inv_getClearEvent h hs⟩
  | checkRc t seen => exact ⟨lo, inv_getCheckRc h hs⟩
  | lockSweep t => exact ⟨lo, inv_getLockSweep h hs⟩
  | sweep t => exact ⟨lo, inv_getSweep h hok hs⟩
  | free t => exact ⟨lo + 1, inv_getFree h hs⟩

/-- **Delivery.** In every interleaving in which a sweep waits for the consumers at the
head, every consumer is given what is dispatched from its creation on, in order and once
each, and a container is freed only when the consumers that have to read it have. -/
theorem delivered_of_headLeft (moves : List (Action κ τ)) (s : State κ τ)
    (hok : Along step HeadLeft (notificationDispatcherCreate κ τ) moves)
    (hrun : run step (notificationDispatcherCreate κ τ) moves = some s) :
    Delivered s ∧ FreedRead s := by
  obtain ⟨lo, h⟩ := run_inv (I := fun s => ∃ lo, Inv s lo)
    (fun _ _ _ ⟨_, h⟩ hok hs => inv_step h hok hs) moves _ _ ⟨1, inv_create⟩ hok hrun
  exact ⟨delivered_of_inv h, freedRead_of_inv h⟩

/-- The accesses of a read by the only thread, when the old container's count is `seen`. -/
def readOnce (c : Fin 2) (seen : Bool) : List (Action (Fin 2) Unit) :=
  [.get () c, .advance (), .reference (), .release (), .checkEvent (), .checkRc () seen]

/-- Two consumers, and two notifications for both. The first consumer reads both; its
second read finds the first container without references and frees it, while the other
consumer still stands at the head. -/
def overtaken : List (Action (Fin 2) Unit) :=
  ([.create 0, .link 0, .create 1, .link 1, .dispatch ⟨1, []⟩, .dispatch ⟨2, []⟩] :
      List (Action (Fin 2) Unit)) ++
    readOnce 0 true ++
    ([.get () 0, .advance (), .reference (), .release (), .checkEvent (), .clearEvent (),
      .checkRc () false, .lockSweep (), .sweep (), .free (), .sweep ()] :
      List (Action (Fin 2) Unit))

/-- A run in which a notification is lost and its container freed unread. -/
theorem overtaken_not_delivered :
    ¬ ∀ (moves : List (Action (Fin 2) Unit)) (s : State (Fin 2) Unit),
      run step (notificationDispatcherCreate (Fin 2) Unit) moves = some s →
        Delivered s ∧ FreedRead s := by
  intro h
  obtain ⟨s, hs, x, hx, hf, hr, hfree⟩ :
      ∃ s, run step (notificationDispatcherCreate (Fin 2) Unit) overtaken = some s ∧
        ∃ x, s.consumer 1 = some x ∧ x.first = 0 ∧ x.received = [] ∧
          (s.container 1).freed = true := ⟨_, rfl, _, rfl, rfl, rfl, rfl⟩
  have := (h overtaken s hs).2 1 hfree 1 x hx (by omega)
  simp [hf, hr] at this

/-- Both consumers read the first notification before the second is dispatched. -/
def inStep : List (Action (Fin 2) Unit) :=
  ([.create 0, .link 0, .create 1, .link 1, .dispatch ⟨1, []⟩, .dispatch ⟨2, []⟩] :
      List (Action (Fin 2) Unit)) ++
    readOnce 0 true ++ readOnce 1 false ++
    ([.lockSweep (), .sweep ()] : List (Action (Fin 2) Unit)) ++
    ([.get () 0, .advance (), .reference (), .release (), .checkEvent (), .clearEvent (),
      .checkRc () true] : List (Action (Fin 2) Unit))

theorem inStep_delivered :
    ∃ s, run step (notificationDispatcherCreate (Fin 2) Unit) inStep = some s ∧
      (∃ x, s.consumer 0 = some x ∧ x.received = [⟨1, []⟩, ⟨2, []⟩]) ∧
      Delivered s ∧ FreedRead s :=
  ⟨_, rfl, ⟨_, rfl, rfl⟩, delivered_of_headLeft inStep _ (by decide) rfl⟩

end KernelModel.Notif
