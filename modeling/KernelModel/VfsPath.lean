import KernelModel.VfsCalls

/-!
The path of a node, and looking it up.

The path is put together from its end, behind the free part of the buffer, and moved to the front.
A write outside of the buffer has no result.
-/

namespace KernelModel.VfsPath

open Vfs Recursion

/-! ### Buffers -/

def put (buffer : List Char) (i : ℕ) (c : Char) : Option (List Char) :=
  if i < buffer.length then some (buffer.set i c) else none

/-- `mem_copy` -/
def memCopy (buffer : List Char) (i : ℕ) : List Char → Option (List Char)
  | [] => some buffer
  | c :: cs => (put buffer i c).bind fun buffer => memCopy buffer (i + 1) cs

/-- The loop that moves characters to the front, from `i + j` to `j`. -/
def moveFront (i : ℕ) : ℕ → ℕ → List Char → Option (List Char)
  | 0, _, buffer => some buffer
  | n + 1, j, buffer =>
    buffer[i + j]?.bind fun c => (put buffer j c).bind fun buffer => moveFront i n (j + 1) buffer

/-- The characters up to the terminator. -/
def cString (buffer : List Char) : List Char := buffer.takeWhile (· ≠ '\x00')

/-! ### `vfs_path` -/

/-- The loop over a node and its parents, at most `f` times. It ends with the position of the
path, or where the path does not fit. -/
def pathLoop (e : Env) : ℕ → Option ℕ → ℕ → List Char → Option (Option ℕ × List Char)
  | _, none, i, buffer => some (some i, buffer)
  | 0, some _, _, _ => none
  | f + 1, some node, i, buffer =>
    if node = e.base then some (some i, buffer)
    else
      let name := (e.tree.node node).name
      if i < name.length + 1 then some (none, buffer)
      else
        let i := i - (name.length + 1)
        (put buffer i '/').bind fun buffer => (memCopy buffer (i + 1) name).bind fun buffer =>
          pathLoop e f (e.tree.node node).parent i buffer

/-- `vfs_path`, with what it returns and the buffer afterwards. -/
def vfsPath (e : Env) (f node : ℕ) (buffer : List Char) : Option (ℕ × List Char) :=
  let bufferLength := buffer.length
  (pathLoop e f (some node) bufferLength buffer).bind fun r =>
    let buffer := r.2
    match r.1 with
    | none => some (0, buffer)
    | some i =>
      if i = 0 then some (0, buffer)
      else
        (if i = bufferLength then (put buffer (i - 1) '/').map fun buffer => (i - 1, buffer)
          else some (i, buffer)).bind fun r =>
          let i := r.1
          (moveFront i (bufferLength - i) 0 r.2).bind fun buffer =>
            (put buffer (bufferLength - i) '\x00').map fun buffer => (bufferLength - i, buffer)

/-! ### What is claimed -/

/-- The names on the way from the root of the process to a node. -/
inductive Below (e : Env) : ℕ → List (List Char) → Prop
  | root : Below e e.base []
  | child {p n : ℕ} {names : List (List Char)} : Below e p names → n ≠ e.base →
      (e.tree.node n).parent = some p → Below e n (names ++ [(e.tree.node n).name])

def path (names : List (List Char)) : List Char := names.flatMap fun name => '/' :: name

/-- Siblings have different names, and names are parts of paths. -/
structure WellNamed (e : Env) (s : State) : Prop where
  unique : ∀ p, ∀ c ∈ s.children p, ∀ c' ∈ s.children p,
    (e.tree.node c).name = (e.tree.node c').name → c = c'
  slash : ∀ n, s.loaded n = true → n ≠ e.base → '/' ∉ (e.tree.node n).name
  dot : ∀ n, s.loaded n = true → n ≠ e.base → (e.tree.node n).name ≠ ['.']
  dotDot : ∀ n, s.loaded n = true → n ≠ e.base → (e.tree.node n).name ≠ ['.', '.']

/-- Names as lookups take them. -/
structure Speakable (name : List Char) : Prop where
  nonempty : name ≠ []
  short : name.length ≤ smmMaxLength
  text : '\x00' ∉ name

/-- The path of a node is written where it fits, and leads back to the node. -/
def RoundTrips (e : Env) (s : State) (node : ℕ) (names : List (List Char)) : Prop :=
  ∀ f, names.length < f → ∀ buffer, ∃ ret buffer', vfsPath e f node buffer = some (ret, buffer') ∧
    buffer'.length = buffer.length ∧ (ret = 0 ↔ buffer.length < (path names).length + 1) ∧
    (ret ≠ 0 → ∀ d root, (∀ m ∈ root, s.loaded m = true) →
      ∃ s', vfsLookup e (d + 1) s root (cString buffer') = some (s', .node node))

variable {e : Env} {s : State} {buffer : List Char} {i j n node : ℕ} {names : List (List Char)}
  {name : List Char}

/-! ### Writing -/

lemma put_eq {c : Char} (h : i < buffer.length) :
    put buffer i c = some (buffer.take i ++ c :: buffer.drop (i + 1)) := by
  rw [put, if_pos h, List.set_eq_take_append_cons_drop, if_pos h]

lemma take_set_succ {c : Char} (h : i < buffer.length) :
    (buffer.set i c).take (i + 1) = buffer.take i ++ [c] := by
  have hlen : (buffer.take i).length = i := by rw [List.length_take]; omega
  rw [List.set_eq_take_append_cons_drop, if_pos h, List.take_append, hlen,
    List.take_of_length_le (by omega), Nat.add_sub_cancel_left]
  rfl

lemma memCopy_eq {cs : List Char} (h : i + cs.length ≤ buffer.length) :
    memCopy buffer i cs = some (buffer.take i ++ cs ++ buffer.drop (i + cs.length)) := by
  induction cs generalizing i buffer with
  | nil => simp [memCopy]
  | cons c cs ih =>
    rw [List.length_cons] at h
    have hi : i < buffer.length := by omega
    rw [memCopy, put, if_pos hi, Option.bind_some, ih (by rw [List.length_set]; omega)]
    have hdrop : (buffer.set i c).drop (i + 1 + cs.length) = buffer.drop (i + 1 + cs.length) := by
      rw [List.drop_set_of_lt (by omega)]
    rw [take_set_succ hi, hdrop, List.length_cons, List.append_assoc, List.append_assoc,
      List.append_assoc,
      List.singleton_append, List.cons_append, Nat.add_assoc, Nat.add_comm 1]

/-- **Moving to the front** copies every character before it is written over. -/
lemma moveFront_eq (hi : 0 < i) (h : i + j + n ≤ buffer.length) : moveFront i n j buffer =
    some (buffer.take j ++ (buffer.drop (i + j)).take n ++ buffer.drop (j + n)) := by
  induction n generalizing j buffer with
  | zero => simp [moveFront]
  | succ n ih =>
    have hread : i + j < buffer.length := by omega
    have hwrite : j < buffer.length := by omega
    rw [moveFront, List.getElem?_eq_getElem hread, Option.bind_some, put, if_pos hwrite,
      Option.bind_some, ih (by rw [List.length_set]; omega)]
    have hfar : (buffer.set j buffer[i + j]).drop (i + (j + 1)) = buffer.drop (i + (j + 1)) := by
      rw [List.drop_set_of_lt (by omega)]
    have hrest : (buffer.set j buffer[i + j]).drop (j + 1 + n) = buffer.drop (j + 1 + n) := by
      rw [List.drop_set_of_lt (by omega)]
    have hchar : (buffer.drop (i + j)).take (n + 1) =
        buffer[i + j] :: (buffer.drop (i + (j + 1))).take n := by
      rw [List.drop_eq_getElem_cons hread, List.take_succ_cons, Nat.add_assoc]
    rw [take_set_succ hwrite, hfar, hrest, hchar]
    simp [Nat.add_comm, Nat.add_left_comm]

/-! ### The path of a node -/

lemma path_snoc (names : List (List Char)) (name : List Char) :
    path (names ++ [name]) = path names ++ '/' :: name := by
  simp [path]

/-- **The loop** writes the path before what is there, or ends where it does not fit, by induction
on the way from the root. -/
lemma pathLoop_eq (h : Below e node names) {f : ℕ} (hf : names.length < f)
    (hi : i ≤ buffer.length) :
    ((path names).length ≤ i → pathLoop e f (some node) i buffer =
      some (some (i - (path names).length),
        buffer.take (i - (path names).length) ++ path names ++ buffer.drop i)) ∧
    (i < (path names).length → ∃ buffer', pathLoop e f (some node) i buffer = some (none, buffer') ∧
      buffer'.length = buffer.length) := by
  induction h generalizing f i buffer with
  | root =>
    obtain ⟨f, rfl⟩ := Nat.exists_eq_add_one_of_ne_zero (by omega : f ≠ 0)
    rw [pathLoop, if_pos rfl]
    simp [path]
  | @child p n names hp hne hparent ih =>
    obtain ⟨f, rfl⟩ := Nat.exists_eq_add_one_of_ne_zero (by omega : f ≠ 0)
    rw [List.length_append, List.length_singleton] at hf
    have hlen : (path (names ++ [(e.tree.node n).name])).length =
        (path names).length + ((e.tree.node n).name.length + 1) := by
      rw [path_snoc, List.length_append, List.length_cons]
    rw [pathLoop, if_neg hne]
    by_cases hfit : i < (e.tree.node n).name.length + 1
    · simp only [if_pos hfit]
      exact ⟨fun h => by omega, fun _ => ⟨buffer, rfl, rfl⟩⟩
    · simp only [if_neg hfit]
      set k := i - ((e.tree.node n).name.length + 1) with hk
      set buffer₁ := buffer.take k ++ '/' :: (e.tree.node n).name ++ buffer.drop i with hbuffer₁
      have hwritten : (put buffer k '/').bind (fun buffer => memCopy buffer (k + 1)
          (e.tree.node n).name) = some buffer₁ := by
        have hput : (buffer.set k '/').length = buffer.length := List.length_set
        rw [put, if_pos (by omega), Option.bind_some, memCopy_eq (by omega),
          take_set_succ (by omega),
          List.drop_set_of_lt (by omega), hbuffer₁]
        have hend : k + 1 + (e.tree.node n).name.length = i := by omega
        rw [hend]
        simp
      have hlen₁ : buffer₁.length = buffer.length := by
        rw [hbuffer₁, List.length_append, List.length_append, List.length_cons, List.length_take,
          List.length_drop]
        omega
      rw [← Option.bind_assoc, hwritten, Option.bind_some, hparent]
      have hk₁ : k ≤ buffer₁.length := by omega
      obtain ⟨hdone, hfull⟩ := ih (by omega : names.length < f) hk₁
      constructor
      · intro hle
        have hdrop : buffer₁.drop k = '/' :: (e.tree.node n).name ++ buffer.drop i := by
          rw [hbuffer₁, List.append_assoc, List.drop_left' (by rw [List.length_take]; omega)]
        have htake : buffer₁.take (k - (path names).length) =
            buffer.take (k - (path names).length) := by
          rw [hbuffer₁, List.append_assoc, List.take_append_of_le_length
            (by rw [List.length_take]; omega), List.take_take]
          congr 1
          omega
        rw [hdone (by omega), hdrop, htake, hlen, path_snoc]
        have hpos : k - (path names).length =
            i - ((path names).length + ((e.tree.node n).name.length + 1)) := by
          rw [hk, Nat.sub_sub, Nat.add_comm]
        rw [hpos]
        simp
      · intro hlt
        obtain ⟨buffer', hrun, hlen'⟩ := hfull (by omega)
        exact ⟨buffer', hrun, hlen'.trans hlen₁⟩

lemma vfsPath_eq (h : Below e node names) (hne : names ≠ []) {f : ℕ} (hf : names.length < f)
    (buffer : List Char) :
    ((path names).length < buffer.length → ∃ rest, vfsPath e f node buffer =
      some ((path names).length, path names ++ '\x00' :: rest) ∧
      (path names ++ '\x00' :: rest).length = buffer.length) ∧
    (buffer.length ≤ (path names).length → ∃ buffer', vfsPath e f node buffer = some (0, buffer') ∧
      buffer'.length = buffer.length) := by
  have hpos : 0 < (path names).length := by
    cases names with
    | nil => exact absurd rfl hne
    | cons name names => simp [path]
  obtain ⟨hdone, hfull⟩ := pathLoop_eq h hf (le_refl buffer.length)
  set total := (path names).length with htotal
  constructor
  · intro hlt
    have hi : buffer.length - total ≠ 0 := by omega
    have hroot : buffer.length - total ≠ buffer.length := by omega
    set buffer₁ := buffer.take (buffer.length - total) ++ path names ++ buffer.drop buffer.length
      with hbuffer₁
    have hlen₁ : buffer₁.length = buffer.length := by
      rw [hbuffer₁, List.length_append, List.length_append, List.length_take, List.length_drop,
        ← htotal]
      omega
    have hdrop : buffer₁.drop (buffer.length - total) = path names := by
      rw [hbuffer₁, List.drop_length, List.append_nil,
        List.drop_left' (by rw [List.length_take]; omega)]
    have hmoved : moveFront (buffer.length - total) total 0 buffer₁ =
        some (path names ++ buffer₁.drop total) := by
      rw [moveFront_eq (by omega) (by omega), List.take_zero, List.nil_append, Nat.zero_add,
        Nat.add_zero, hdrop, htotal, List.take_length]
    have hend : (path names ++ buffer₁.drop total).length = buffer.length := by
      rw [List.length_append, List.length_drop, ← htotal]
      omega
    refine ⟨(buffer₁.drop total).drop 1, ?_, ?_⟩
    · rw [vfsPath, hdone hlt.le, Option.bind_some]
      simp only [if_neg hi, if_neg hroot, Option.bind_some]
      rw [Nat.sub_sub_self hlt.le, hmoved, Option.bind_some, put_eq (by omega), Option.map_some,
        List.take_left' htotal.symm, ← List.drop_drop, List.drop_left' htotal.symm]
    · rw [List.length_append, List.length_cons, List.length_drop, List.length_drop, ← htotal]
      omega
  · intro hle
    rcases hle.lt_or_eq with hlt | heq
    · obtain ⟨buffer', hrun, hlen⟩ := hfull hlt
      refine ⟨buffer', ?_, hlen⟩
      rw [vfsPath, hrun]
      rfl
    · have hall : buffer.take (buffer.length - total) ++ path names ++ buffer.drop buffer.length =
          path names := by
        rw [heq, Nat.sub_self, ← heq, List.drop_length]
        simp
      refine ⟨path names, ?_, by rw [heq]⟩
      rw [vfsPath, hdone heq.ge, hall, heq, Nat.sub_self]
      rfl

/-! ### Looking it up -/

lemma token_name {q : List Char} (hname : Speakable name) (hslash : '/' ∉ name)
    (hdot : name ≠ ['.'])
    (hdotDot : name ≠ ['.', '.']) (hq : q = [] ∨ q.head? = some '/') :
    token (name ++ q) = .name name ∧ rest (name ++ q) = q := by
  have hall : ∀ c ∈ name, c ≠ '/' := fun c hc heq => hslash (heq ▸ hc)
  have hhead : (name ++ q).head? ≠ some '/' := by
    cases name with
    | nil => exact absurd rfl hname.nonempty
    | cons c name => simpa using hall c (by simp)
  have hqtake : q.takeWhile (· ≠ '/') = [] := by
    rcases hq with rfl | hq
    · rfl
    · cases q with
      | nil => rfl
      | cons c q => simp [Option.some.inj hq]
  have hqdrop : q.dropWhile (· ≠ '/') = q := by
    rcases hq with rfl | hq
    · rfl
    · cases q with
      | nil => rfl
      | cons c q => simp [Option.some.inj hq]
  have htake : (name ++ q).takeWhile (· ≠ '/') = name := by
    rw [List.takeWhile_append_of_pos (by simpa using hall), hqtake, List.append_nil]
  have hdrop : (name ++ q).dropWhile (· ≠ '/') = q := by
    rw [List.dropWhile_append_of_pos (by simpa using hall), hqdrop]
  constructor
  · rw [token, if_neg hhead]
    simp only [htake]
    rw [if_neg (Nat.not_lt.mpr hname.short), if_neg hdot, if_neg hdotDot]
  · rw [rest, if_neg hhead, hdrop]

lemma WellNamed.childOf (hn : WellNamed e s) {p c : ℕ} (hc : c ∈ s.children p) :
    Vfs.childOf e.tree s p (e.tree.node c).name = some c := by
  rw [Vfs.childOf]
  cases hfind : (s.children p).find? fun c' => (e.tree.node c').name = (e.tree.node c).name with
  | none =>
    have hnot := List.find?_eq_none.mp hfind c hc
    simp at hnot
  | some c' =>
    have hname : (e.tree.node c').name = (e.tree.node c).name := by
      simpa using List.find?_some hfind
    rw [hn.unique p c' (List.mem_of_find?_eq_some hfind) c hc hname]
    rfl

section

variable (hflags : e.flags = ⟨false, false, false⟩) (hsound : Sound e.tree s) (hn : WellNamed e s)

include hflags hsound hn

/-- **The walk along a path** ends at its node, by induction on the way from the root. -/
lemma walk_path (h : Below e node names) (hload : s.loaded node = true)
    (hspeak : ∀ name ∈ names, Speakable name) (r : Query → Option Outcome) {f : ℕ} {q : List Char}
    (hf : 2 * names.length ≤ f) (hq : q = [] ∨ q.head? = some '/') :
    walk e (Vfs.childOf e.tree s) r f e.base (path names ++ q) =
      walk e (Vfs.childOf e.tree s) r (f - 2 * names.length) node q := by
  have hstop : ∀ n, e.stopsAt n = false := fun n => by simp [Env.stopsAt, hflags]
  have hperm : ∀ n, e.hasReadPermissions n = true := fun n => by
    simp [Env.hasReadPermissions, hflags]
  have hhere : ∀ n, followed e r n = some (.here n) := fun n => by
    rw [followed, if_neg (by rw [hstop]; simp)]
  induction h generalizing f q with
  | root => simp [path]
  | @child p n names hp hne hparent ih =>
    rw [List.length_append, List.length_singleton] at hf ⊢
    have hname : Speakable (e.tree.node n).name := hspeak _ (by simp)
    obtain ⟨htoken, hrest⟩ := token_name hname (hn.slash n hload hne) (hn.dot n hload hne)
      (hn.dotDot n hload hne) hq
    have hmem : n ∈ s.children p := hsound.parent_child hload hparent
    rw [path_snoc, List.append_assoc, ih (hsound.parent_loaded hload hparent)
      (fun name hname => hspeak name (by simp [hname])) (by omega) (.inr rfl), List.cons_append]
    obtain ⟨k, hk⟩ : ∃ k, f - 2 * names.length = k + 1 + 1 :=
      ⟨f - 2 * names.length - 2, by omega⟩
    have hend : f - 2 * (names.length + 1) = k := by omega
    rw [hk, hend, walk_here (by simp) (hhere p)]
    have hslash : advance e (Vfs.childOf e.tree s) p ('/' :: ((e.tree.node n).name ++ q)) =
        .here p := rfl
    have hstep : advance e (Vfs.childOf e.tree s) p ((e.tree.node n).name ++ q) = .here n := by
      rw [advance, htoken]
      simp only [hperm, Bool.not_true, Bool.false_eq_true, if_false, hn.childOf hmem, if_neg hne]
    rw [hslash]
    show walk e _ r (k + 1) p ((e.tree.node n).name ++ q) = _
    rw [walk_here (by simp [hname.nonempty]) (hhere p), hstep, hrest]

lemma vfsLookup_path {root : Option ℕ} (hready : Callable e s root) (h : Below e node names)
    (hne : names ≠ []) (hload : s.loaded node = true) (hspeak : ∀ name ∈ names, Speakable name)
    (d : ℕ) : ∃ s', vfsLookup e (d + 1) s root (path names) = some (s', .node node) := by
  have hlen : ∀ names : List (List Char), (∀ name ∈ names, Speakable name) →
      2 * names.length ≤ (path names).length := by
    intro names hspeak
    induction names with
    | nil => simp
    | cons name names ih =>
      have hone := List.length_pos_iff.mpr (hspeak name (by simp)).nonempty
      have hrest := ih fun name hname => hspeak name (by simp [hname])
      have hcons : (path (name :: names)).length = name.length + 1 + (path names).length := by
        rw [path, List.flatMap_cons, List.length_append, List.length_cons]
        rfl
      rw [hcons, List.length_cons]
      omega
  obtain ⟨x, hx⟩ : ∃ x, path names = '/' :: x := by
    cases names with
    | nil => exact absurd rfl hne
    | cons name names => exact ⟨name ++ path names, by simp [path]⟩
  have hstop : ∀ n, e.stopsAt n = false := fun n => by simp [Env.stopsAt, hflags]
  have hhere : ∀ r n, followed e r n = some (.here n) := fun r n => by
    rw [followed, if_neg (by rw [hstop]; simp)]
  have heval : eval (resolution e (Vfs.childOf e.tree s)) (d + 1) (root, path names) =
      some (.found node) := by
    rw [eval_succ]
    set r := eval (resolution e (Vfs.childOf e.tree s)) d
    show walk e _ r (startPath (path names)).length (e.start root (path names))
      (startPath (path names)) = _
    rw [hx]
    show walk e _ r x.length e.base x = _
    -- the first slash is a step of the walk as well
    have hslash : walk e (Vfs.childOf e.tree s) r (x.length + 1) e.base ('/' :: x) =
        walk e (Vfs.childOf e.tree s) r x.length e.base x := walk_here (by simp) (hhere r _)
    have hall := walk_path hflags hsound hn h hload hspeak r (f := x.length + 1) (q := [])
      (by have := hlen names hspeak; rw [hx, List.length_cons] at this; exact this) (.inl rfl)
    rw [List.append_nil, hx, hslash, walk_nil, hhere] at hall
    exact hall
  obtain ⟨s', hs', -⟩ :=
    (vfsLookupForCreation_follows e _ (d + 1) (path names) false hready).2 _ heval
  exact ⟨s', by rw [vfsLookup, hs']; rfl⟩

/-- **Paths round trip** for a node below the root of the process with names that lookups take. -/
theorem roundTrips (hbase : s.loaded e.base = true) (hhome : s.loaded e.home = true)
    (hcwd : s.loaded e.cwd = true) (h : Below e node names) (hne : names ≠ [])
    (hload : s.loaded node = true) (hspeak : ∀ name ∈ names, Speakable name) :
    RoundTrips e s node names := by
  intro f hf buffer
  obtain ⟨hfits, hnot⟩ := vfsPath_eq h hne hf buffer
  have hpos : (path names).length ≠ 0 := by
    cases names with
    | nil => exact absurd rfl hne
    | cons name names => simp [path]
  rcases Nat.lt_or_ge (path names).length buffer.length with hlt | hge
  · obtain ⟨rest, hrun, hlen⟩ := hfits hlt
    refine ⟨_, _, hrun, hlen, iff_of_false hpos (by omega), fun _ d root hroot => ?_⟩
    have htext : ∀ c ∈ path names, c ≠ '\x00' := by
      intro c hc heq
      obtain ⟨name, hname, hc⟩ := List.mem_flatMap.mp hc
      rcases List.mem_cons.mp hc with rfl | hc
      · exact absurd heq (by decide)
      · exact (hspeak name hname).text (heq ▸ hc)
    have hstring : cString (path names ++ '\x00' :: rest) = path names := by
      rw [cString, List.takeWhile_append_of_pos (by simpa using htext)]
      simp
    rw [hstring]
    exact vfsLookup_path hflags hsound hn ⟨hsound, fun _ _ => rfl, hbase, hhome, hcwd, hroot⟩ h hne
      hload hspeak d
  · obtain ⟨buffer', hrun, hlen⟩ := hnot hge
    exact ⟨0, buffer', hrun, hlen, iff_of_true rfl (by omega), fun h => absurd rfl h⟩

end

/-- A root directory with a directory, and a file in that one. -/
def nestedNode : ℕ → Node
  | 1 => ⟨['a'], some 0, .directory, false, false, 0, 0, 0, true, []⟩
  | 2 => ⟨['b'], some 1, .file, false, false, 0, 0, 0, true, []⟩
  | _ => ⟨[], none, .directory, true, false, 0, 0, 0, true, []⟩

def nestedEnv : Env where
  tree := ⟨nestedNode, fun _ _ => none⟩
  process := some ⟨0, 0, 0⟩
  vfsRootNode := 0
  ids := Ids.init
  flags := ⟨false, false, false⟩
  uid := 0
  gid := 0

def nestedState : State where
  loaded n := n < 3
  children n := if n = 0 then [1] else if n = 1 then [2] else []
  rc n := if n = 0 then 5 else if n = 1 then 1 else 0
  deleted := []

lemma nested_children {p c : ℕ} (hc : c ∈ nestedState.children p) :
    p = 0 ∧ c = 1 ∨ p = 1 ∧ c = 2 := by
  unfold nestedState at hc
  by_cases h0 : p = 0
  · exact .inl ⟨h0, by simpa [h0] using hc⟩
  by_cases h1 : p = 1
  · exact .inr ⟨h1, by simpa [h1] using hc⟩
  · simp [h0, h1] at hc

lemma nested_parent {n p : ℕ} (hp : (nestedNode n).parent = some p) :
    n = 1 ∧ p = 0 ∨ n = 2 ∧ p = 1 := by
  unfold nestedNode at hp
  split at hp
  · exact .inl ⟨rfl, (Option.some.inj hp).symm⟩
  · exact .inr ⟨rfl, (Option.some.inj hp).symm⟩
  · cases hp

lemma nested_loaded {n : ℕ} (hn : nestedState.loaded n = true) : n = 0 ∨ n = 1 ∨ n = 2 := by
  have hn3 : n < 3 := by simpa [nestedState] using hn
  omega

lemma nested_sound : Sound nestedEnv.tree nestedState where
  child_loaded hc := by rcases nested_children hc with ⟨-, rfl⟩ | ⟨-, rfl⟩ <;> rfl
  child_parent hc := by rcases nested_children hc with ⟨rfl, rfl⟩ | ⟨rfl, rfl⟩ <;> rfl
  parent_child _ hp := by
    rcases nested_parent hp with ⟨rfl, rfl⟩ | ⟨rfl, rfl⟩ <;> simp [nestedState]
  parent_loaded _ hp := by rcases nested_parent hp with ⟨-, rfl⟩ | ⟨-, rfl⟩ <;> rfl
  disk_name h := by cases h
  disk_parent h := by cases h
  disk_kept h := by cases h
  unloaded {n} hn := by
    have h0 : n ≠ 0 := by
      rintro rfl
      cases hn
    have h1 : n ≠ 1 := by
      rintro rfl
      cases hn
    simp [nestedState, h0, h1]
  kept hn hrc := by
    rcases nested_loaded hn with rfl | rfl | rfl
    · cases hrc
    · cases hrc
    · exact ⟨.inl (by simp [nestedEnv, nestedNode]), rfl⟩

lemma nested_wellNamed : WellNamed nestedEnv nestedState := by
  refine ⟨fun p c hc c' hc' _ => ?_, fun n hn hne => ?_, fun n hn hne => ?_, fun n hn hne => ?_⟩
  · have h := nested_children hc
    have h' := nested_children hc'
    omega
  all_goals rcases nested_loaded hn with rfl | rfl | rfl <;> first | exact absurd rfl hne | decide

/-- The file `/a/b`. -/
theorem roundTrips_nested : RoundTrips nestedEnv nestedState 2 [['a'], ['b']] := by
  have hspeak : ∀ name ∈ [['a'], ['b']], Speakable name := by
    intro name hname
    have hcases : name = ['a'] ∨ name = ['b'] := by simpa using hname
    rcases hcases with rfl | rfl <;> exact ⟨by simp, by decide, by decide⟩
  exact roundTrips rfl nested_sound nested_wellNamed rfl rfl rfl
    (Below.child (n := 2) (Below.child (n := 1) .root (by decide) rfl) (by decide) rfl) (by simp)
    rfl hspeak

/-! ### Names that lookups do not take -/

/-- A root directory with one file of a given name. -/
def oneNode (name : List Char) : ℕ → Node
  | 1 => ⟨name, some 0, .file, false, false, 0, 0, 0, true, []⟩
  | _ => ⟨[], none, .directory, true, false, 0, 0, 0, true, []⟩

def oneEnv (name : List Char) : Env where
  tree := ⟨oneNode name, fun _ _ => none⟩
  process := some ⟨0, 0, 0⟩
  vfsRootNode := 0
  ids := Ids.init
  flags := ⟨false, false, false⟩
  uid := 0
  gid := 0

def oneState : State where
  loaded n := n < 2
  children n := if n = 0 then [1] else []
  rc n := if n = 0 then 5 else 0
  deleted := []

lemma one_wellNamed (hslash : '/' ∉ name) (hdot : name ≠ ['.']) (hdotDot : name ≠ ['.', '.']) :
    WellNamed (oneEnv name) oneState := by
  have hloaded : ∀ n, oneState.loaded n = true → n ≠ 0 → n = 1 := by
    intro n hn hne
    have hn2 : n < 2 := by simpa [oneState] using hn
    omega
  refine ⟨fun p c hc c' hc' _ => ?_, fun n hn hne => ?_, fun n hn hne => ?_, fun n hn hne => ?_⟩
  · have hmem : ∀ c ∈ oneState.children p, c = 1 := by
      intro c hc
      unfold oneState at hc
      by_cases hp : p = 0
      · simpa [hp] using hc
      · simp [hp] at hc
    rw [hmem c hc, hmem c' hc']
  · obtain rfl := hloaded n hn hne
    exact hslash
  · obtain rfl := hloaded n hn hne
    exact hdot
  · obtain rfl := hloaded n hn hne
    exact hdotDot

lemma one_below : Below (oneEnv name) 1 [name] :=
  Below.child (n := 1) .root (show 1 ≠ 0 from Nat.one_ne_zero) rfl

lemma one_not_roundTrips {found : Found} (hfound : found ≠ .node 1)
    (hlookup : (vfsLookup (oneEnv name) 1 oneState none ((path [name]).takeWhile (· ≠ '\x00'))).map
      Prod.snd = some found) : ¬ RoundTrips (oneEnv name) oneState 1 [name] := by
  intro hround
  obtain ⟨ret, buffer', hrun, -, -, hback⟩ :=
    hround 2 (by simp) (List.replicate ((path [name]).length + 1) ' ')
  have hbelow : Below (oneEnv name) 1 [name] := one_below
  obtain ⟨rest, hwritten, -⟩ := (vfsPath_eq hbelow (by simp) (show [name].length < 2 by simp)
    (List.replicate ((path [name]).length + 1) ' ')).1 (by simp)
  rw [hwritten] at hrun
  cases hrun
  obtain ⟨s', hs'⟩ := hback (by simp [path]) 0 none (by simp)
  have hstring : cString (path [name] ++ '\x00' :: rest) =
      (path [name]).takeWhile (· ≠ '\x00') := by
    rw [cString, List.takeWhile_append]
    split_ifs with h
    · rw [(List.takeWhile_prefix _).eq_of_length h]
      simp
    · rfl
  rw [hstring] at hs'
  rw [hs', Option.map_some] at hlookup
  exact hfound (Option.some.inj hlookup).symm

/-- A file with a name is below the root, and is not found by its path. -/
def Lost (name : List Char) : Prop :=
  WellNamed (oneEnv name) oneState ∧ Below (oneEnv name) 1 [name] ∧
    ¬ RoundTrips (oneEnv name) oneState 1 [name]

/-- **Three names that do not come back**: the empty one, one of 256 characters, and one with a
zero character. -/
theorem not_roundTrips : Lost [] ∧ Lost (List.replicate 256 'a') ∧ Lost ['a', '\x00'] := by
  have hnull : Found.null ≠ .node 1 := by decide
  have hroot : Found.node 0 ≠ .node 1 := by decide
  refine ⟨?_, ?_, ?_⟩
  · exact ⟨one_wellNamed (by decide) (by decide) (by decide), one_below,
      one_not_roundTrips hroot (by decide +kernel)⟩
  · exact ⟨one_wellNamed (by decide) (by decide) (by decide), one_below,
      one_not_roundTrips hnull (by decide +kernel)⟩
  · exact ⟨one_wellNamed (by decide) (by decide) (by decide), one_below,
      one_not_roundTrips hnull (by decide +kernel)⟩

end KernelModel.VfsPath
