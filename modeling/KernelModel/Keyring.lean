import KernelModel.DoublyLinked

/-!
Keyrings: the list of keys behind a keyring's head, its insertion and its search.

A key is the number of its allocation. Its type, its flags and its data are set by the callers and
left out, and so are the notifications; the lock is held throughout a call.
-/

namespace KernelModel.Keyrings

open DoublyLinked

/-! ### Names -/

/-- The bytes of a name in front of the terminating zero. -/
structure Name where
  data : List UInt8
  nonzero : 0 ∉ data
  length_lt : data.length < 2 ^ 32

/-- `string_t` -/
structure StringT where
  length : ℕ
  hash : UInt32
  data : List UInt8

def fnvOffsetBasis : UInt32 := 0x811c9dc5

def fnvPrime : UInt32 := 0x01000193

/-- A byte is a signed character. -/
def signExtend (b : UInt8) : UInt32 := if b < 128 then b.toUInt32 else b.toUInt32 ||| 0xffffff00

/-- `smm_alloc` with the length zero, which counts the bytes in front of the zero. -/
def smmAlloc (name : Name) : StringT where
  length := name.data.length
  hash := name.data.foldl (fun hash b => (hash ^^^ signExtend b) * fnvPrime) fnvOffsetBasis
  data := name.data

def smmEqual (a b : StringT) : Bool :=
  if a.length ≠ b.length ∨ a.hash ≠ b.hash then false
  else (List.range a.length).all fun i => a.data[i]? = b.data[i]?

lemma smmEqual_iff (a b : Name) : smmEqual (smmAlloc a) (smmAlloc b) = true ↔ a.data = b.data := by
  rw [smmEqual]
  split_ifs with hne
  · refine iff_of_false (by simp) fun heq => ?_
    rcases hne with hne | hne
    · exact hne (congrArg List.length heq)
    · refine hne ?_
      rw [smmAlloc, smmAlloc, heq]
  · rw [not_or, not_not, not_not] at hne
    rw [List.all_eq_true]
    constructor
    · intro hall
      refine List.ext_getElem? fun i => ?_
      by_cases hi : i < a.data.length
      · exact of_decide_eq_true (hall i (List.mem_range.mpr hi))
      · have hlength : a.data.length = b.data.length := hne.1
        rw [List.getElem?_eq_none (by omega), List.getElem?_eq_none (by omega)]
    · intro heq i _
      simp [smmAlloc, heq]

/-! ### Keyrings -/

structure Key where
  prev : Option ℕ
  next : Option ℕ
  name : StringT

/-- A keyring and its keys; `size` keys have been allocated. -/
structure Keyring where
  head : Option ℕ
  size : ℕ
  key : ℕ → Key

/-- `keyring_create`; the memory of the keys is arbitrary. -/
def keyringCreate (key : ℕ → Key) : Keyring := ⟨none, 0, key⟩

/-- The first key of a name, from a key on; no result is a loop that has not ended. -/
def searchFrom (s : Keyring) (name : StringT) : ℕ → Option ℕ → Option (Option ℕ)
  | _, none => some none
  | 0, some _ => none
  | n + 1, some k =>
    if smmEqual (s.key k).name name then some (some k) else searchFrom s name n (s.key k).next

/-- `keyring_search` -/
def keyringSearch (s : Keyring) (name : Name) : Option (Option ℕ) :=
  searchFrom s (smmAlloc name) s.size s.head

/-- The new key is put in front of the list. -/
def linkKey (s : Keyring) (name : Name) : Keyring :=
  let out := s.size
  let key := Function.update s.key out ⟨none, s.head, smmAlloc name⟩
  match s.head with
  | some head =>
    { s with
      size := s.size + 1
      key := Function.update key head { key head with prev := some out } }
  | none => { head := some out, size := s.size + 1, key }

/-- `keyring_key_create` -/
def keyringKeyCreate (s : Keyring) (name : Name) : Option (Keyring × Option ℕ) :=
  match keyringSearch s name with
  | none => none
  | some (some _) => some (s, none)
  | some none => some (linkKey s name, some s.size)

/-! ### Sequences of calls -/

inductive Call
  | create (name : Name)
  | search (name : Name)

/-- A call, with the keyring after it and its result. -/
def call (s : Keyring) : Call → Option (Keyring × Option ℕ)
  | .create name => keyringKeyCreate s name
  | .search name => (keyringSearch s name).map fun result => (s, result)

/-- The list behind the head has exactly these keys. -/
def HasKeys (s : Keyring) (keys : List (List UInt8 × ℕ)) : Prop :=
  ∃ l tail, l.Nodup ∧
    Linked (fun k => (s.key k).next) (fun k => (s.key k).prev) s.head tail l ∧
      ∀ k, k ∈ l ↔ k ∈ keys.map Prod.snd

/-- What a call has to return after the creations of some keys, newest first. -/
def Returns (keys : List (List UInt8 × ℕ)) (result : Option ℕ) : Call → Prop
  | .create name => result = none ↔ name.data ∈ keys.map Prod.fst
  | .search name => ∀ k, result = some k ↔ (name.data, k) ∈ keys

/-- The keys after a call. -/
def keysAfter (keys : List (List UInt8 × ℕ)) (result : Option ℕ) :
    Call → List (List UInt8 × ℕ)
  | .create name =>
    match result with
    | some k => (name.data, k) :: keys
    | none => keys
  | .search _ => keys

/-- Every call returns what it has to, and the list has the right keys after each of them. -/
def Finds (s : Keyring) (keys : List (List UInt8 × ℕ)) : List Call → Prop
  | [] => HasKeys s keys
  | c :: calls =>
    HasKeys s keys ∧ ∃ s' result, call s c = some (s', result) ∧ Returns keys result c ∧
      Finds s' (keysAfter keys result c) calls

/-! ### No key, one key, two keys -/

lemma Finds.hasKeys {s : Keyring} {keys : List (List UInt8 × ℕ)} {calls : List Call}
    (h : Finds s keys calls) : HasKeys s keys := by
  cases calls with
  | nil => exact h
  | cons c calls => exact h.1

structure IsEmpty (s : Keyring) : Prop where
  head_eq : s.head = none
  size_eq : s.size = 0

structure IsSingle (name : Name) (s : Keyring) : Prop where
  head_eq : s.head = some 0
  size_eq : s.size = 1
  key_eq : s.key 0 = ⟨none, none, smmAlloc name⟩

variable {s : Keyring} {name other : Name}

lemma IsEmpty.search (h : IsEmpty s) (name : Name) : keyringSearch s name = some none := by
  rw [keyringSearch, h.head_eq]
  cases s.size <;> rfl

lemma IsEmpty.link (h : IsEmpty s) (name : Name) : IsSingle name (linkKey s name) := by
  rw [linkKey, h.head_eq, h.size_eq]
  exact ⟨rfl, rfl, by simp⟩

lemma IsEmpty.hasKeys (h : IsEmpty s) : HasKeys s [] := by
  refine ⟨[], none, List.nodup_nil, ?_, fun k => Iff.rfl⟩
  rw [h.head_eq]
  exact linked_nil _ _

lemma IsSingle.search (h : IsSingle name s) (other : Name) :
    keyringSearch s other = some (if name.data = other.data then some 0 else none) := by
  rw [keyringSearch, h.head_eq, h.size_eq, searchFrom, h.key_eq]
  by_cases heq : name.data = other.data
  · rw [if_pos ((smmEqual_iff _ _).mpr heq), if_pos heq]
  · rw [if_neg (fun hequal => heq ((smmEqual_iff _ _).mp hequal)), if_neg heq]
    rfl

lemma IsSingle.hasKeys (h : IsSingle name s) : HasKeys s [(name.data, 0)] := by
  refine ⟨[0], some 0, List.nodup_singleton 0, ?_, by simp⟩
  refine ⟨h.head_eq, ?_, rfl, ?_⟩
  · exact congrArg Key.prev h.key_eq
  · exact congrArg Key.next h.key_eq

/-- **A second key** is put in front of the first one, and the head is left behind it. -/
lemma IsSingle.link_not_hasKeys (h : IsSingle name s) (keys : List (List UInt8 × ℕ))
    (hkeys : keys ≠ []) : ¬HasKeys (linkKey s other) keys := by
  rintro ⟨l, tail, -, hlinked, hmem⟩
  rw [linkKey, h.head_eq, h.size_eq] at hlinked
  cases l with
  | nil =>
    obtain ⟨key, hkey⟩ := List.exists_mem_of_ne_nil keys hkeys
    exact List.not_mem_nil ((hmem key.2).mpr (List.mem_map_of_mem hkey))
  | cons k l =>
    obtain ⟨hhead, hprev, -⟩ := hlinked
    cases hhead
    simp at hprev

/-- With one key, every call does what it has to as long as no other key is created. -/
lemma IsSingle.finds_single (h : IsSingle name s) (calls : List Call) :
    Finds s [(name.data, 0)] calls ↔
      ∀ other, .create other ∈ calls → name.data = other.data := by
  induction calls with
  | nil => exact iff_of_true h.hasKeys nofun
  | cons c calls ih =>
    cases c with
    | search other =>
      have hcall : call s (.search other) =
          some (s, if name.data = other.data then some 0 else none) := by
        rw [call, h.search]
        rfl
      have hreturns : Returns [(name.data, 0)] (if name.data = other.data then some 0 else none)
          (.search other) := by
        intro k
        by_cases heq : name.data = other.data
        · simp [heq, eq_comm]
        · simp [heq, eq_comm]
      rw [Finds, hcall]
      constructor
      · rintro ⟨-, s', result, heq, -, hrest⟩ other' hmem
        cases heq
        rcases List.mem_cons.mp hmem with heq | hmem
        · cases heq
        · exact ih.mp hrest other' hmem
      · intro hall
        exact ⟨h.hasKeys, s, _, rfl, hreturns,
          ih.mpr fun other' hmem => hall other' (List.mem_cons_of_mem _ hmem)⟩
    | create other =>
      by_cases heq : name.data = other.data
      · have hcall : call s (.create other) = some (s, none) := by
          rw [call, keyringKeyCreate, h.search, if_pos heq]
        rw [Finds, hcall]
        constructor
        · rintro ⟨-, s', result, hs, -, hrest⟩ other' hmem
          cases hs
          rcases List.mem_cons.mp hmem with hother | hmem
          · cases hother
            exact heq
          · exact ih.mp hrest other' hmem
        · intro hall
          exact ⟨h.hasKeys, s, none, rfl, by simp [Returns, heq],
            ih.mpr fun other' hmem => hall other' (List.mem_cons_of_mem _ hmem)⟩
      · have hcall : call s (.create other) = some (linkKey s other, some s.size) := by
          rw [call, keyringKeyCreate, h.search, if_neg heq]
        refine iff_of_false (fun hfinds => ?_) fun hall => heq (hall other List.mem_cons_self)
        obtain ⟨-, s', result, hs, -, hrest⟩ := hfinds
        rw [hcall] at hs
        cases hs
        exact h.link_not_hasKeys _ (List.cons_ne_nil _ _) hrest.hasKeys

/-- **Keyrings find what they hold** as long as the keys that are created have one name, and no
longer. -/
theorem finds_iff (key : ℕ → Key) (calls : List Call) :
    Finds (keyringCreate key) [] calls ↔
      ∀ name other, .create name ∈ calls → .create other ∈ calls → name.data = other.data := by
  have hempty : IsEmpty (keyringCreate key) := ⟨rfl, rfl⟩
  generalize keyringCreate key = s at hempty ⊢
  induction calls with
  | nil => exact iff_of_true hempty.hasKeys nofun
  | cons c calls ih =>
    cases c with
    | search other =>
      have hcall : call s (.search other) = some (s, none) := by
        rw [call, hempty.search]
        rfl
      rw [Finds, hcall]
      constructor
      · rintro ⟨-, s', result, hs, -, hrest⟩ first second hfirst hsecond
        cases hs
        exact ih.mp hrest first second (by simpa using hfirst) (by simpa using hsecond)
      · intro hall
        exact ⟨hempty.hasKeys, s, none, rfl, by simp [Returns], ih.mpr fun first second hfirst
          hsecond => hall first second (List.mem_cons_of_mem _ hfirst)
            (List.mem_cons_of_mem _ hsecond)⟩
    | create first =>
      have hcall : call s (.create first) = some (linkKey s first, some 0) := by
        rw [call, keyringKeyCreate, hempty.search, hempty.size_eq]
      have hrest := (hempty.link first).finds_single calls
      rw [Finds, hcall]
      constructor
      · rintro ⟨-, s', result, hs, -, hfinds⟩
        cases hs
        have hsame : ∀ other, .create other ∈ Call.create first :: calls →
            first.data = other.data := by
          intro other hmem
          rcases List.mem_cons.mp hmem with heq | hmem
          · cases heq
            rfl
          · exact hrest.mp hfinds other hmem
        exact fun a b ha hb => (hsame a ha).symm.trans (hsame b hb)
      · intro hall
        exact ⟨hempty.hasKeys, _, _, rfl, by simp [Returns], hrest.mpr fun other hmem =>
          hall first other List.mem_cons_self (List.mem_cons_of_mem _ hmem)⟩

/-- A name of one letter. -/
def letter (b : UInt8) (hb : b ≠ 0) : Name := ⟨[b], by simpa using hb.symm, by norm_num⟩

/-- The key of the second name is lost. -/
theorem not_finds_second : ¬∀ (key : ℕ → Key) (calls : List Call),
    Finds (keyringCreate key) [] calls := by
  intro h
  obtain ⟨-, s₁, result₁, hs₁, -, -, s₂, result₂, hs₂, -, hkeys⟩ :=
    h (fun _ => ⟨none, none, ⟨0, 0, []⟩⟩)
      [.create (letter 97 (by decide)), .create (letter 98 (by decide))]
  have hempty : IsEmpty (keyringCreate fun _ => ⟨none, none, ⟨0, 0, []⟩⟩) := ⟨rfl, rfl⟩
  rw [call, keyringKeyCreate, hempty.search] at hs₁
  cases hs₁
  rw [call, keyringKeyCreate, (hempty.link _).search, if_neg (by decide)] at hs₂
  cases hs₂
  exact (hempty.link _).link_not_hasKeys _ (List.cons_ne_nil _ _) hkeys

end KernelModel.Keyrings
