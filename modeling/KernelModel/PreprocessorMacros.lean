import KernelModel.PreprocessorBlocks
import Mathlib.Data.List.Nodup

/-!
The macros of the preprocessor as a map from names to values, along the lines of a source.

A name is defined once at a time, so the table of the macros is as good as the map. The values are
parts of the lines of the source.
-/

namespace KernelModel.Glsl.Preprocessor

/-! ### The table and the map -/

def Env.apply (env : Env) : Directive → Env
  | .define name value => Function.update env name (some value)
  | .undef name => Function.update env name none
  | _ => env

/-- The macros behind a block. -/
def Block.env (env : Env) (b : Block) : Env :=
  if b.IsDirective then env.apply b.directive else env

/-- No name is in the table twice. -/
def State.UniqueNames (s : State) : Prop := (s.macros.map Macro.identifier).Nodup

section

variable {s : State} {name value v : Text}

lemma findMacro_mem (h : findMacro s name = some v) : ⟨name, v⟩ ∈ s.macros := by
  obtain ⟨m, hm, rfl⟩ := Option.map_eq_some_iff.mp h
  have hname := List.find?_some hm
  rw [decide_eq_true_iff] at hname
  exact hname ▸ List.mem_of_find?_eq_some hm

lemma findMacro_eq_some (hs : s.UniqueNames) :
    findMacro s name = some v ↔ ⟨name, v⟩ ∈ s.macros := by
  refine ⟨findMacro_mem, fun hmem => ?_⟩
  cases hfind : findMacro s name with
  | none =>
    rw [findMacro, Option.map_eq_none_iff, List.find?_eq_none] at hfind
    exact absurd (decide_eq_true rfl) (hfind _ hmem)
  | some v' =>
    have heq := List.inj_on_of_nodup_map hs (findMacro_mem hfind) hmem rfl
    exact congrArg some (Macro.mk.inj heq).2

lemma deleteMacro_perm (s : State) (name : Text) : (deleteMacro s name).macros.Perm
    (s.macros.eraseIdx (s.macros.findIdx fun m => m.identifier = name)) := by
  obtain ⟨i, hi⟩ : ∃ i, s.macros.findIdx (fun m => decide (m.identifier = name)) = i := ⟨_, rfl⟩
  rw [deleteMacro, hi]
  rcases List.eq_nil_or_concat s.macros with hnil | ⟨init, last, hsplit⟩
  · rw [hnil, List.getLast?_nil, List.eraseIdx_nil]
    exact List.Perm.of_eq hnil
  · rw [hsplit, List.concat_eq_append, List.getLast?_append_of_ne_nil _ (List.cons_ne_nil _ _)]
    dsimp only [List.getLast?_singleton]
    split_ifs with hlt
    · rw [List.length_append, List.length_singleton] at hlt
      rcases Nat.lt_or_ge i init.length with hinit | hinit
      · rw [List.set_append_left _ _ hinit, List.dropLast_concat,
          List.eraseIdx_append_of_lt_length hinit]
        exact (List.set_perm_cons_eraseIdx hinit last).trans (List.perm_append_singleton _ _).symm
      · obtain rfl : i = init.length := by omega
        rw [List.set_append_right _ _ le_rfl, Nat.sub_self, List.set_cons_zero,
          List.dropLast_concat, List.eraseIdx_append_of_length_le le_rfl, Nat.sub_self,
          List.eraseIdx_cons_zero, List.append_nil]
    · rw [List.eraseIdx_of_length_le (Nat.le_of_not_lt hlt), hsplit, List.concat_eq_append]

lemma mem_deleteMacro (hs : s.UniqueNames) {m : Macro} :
    m ∈ (deleteMacro s name).macros ↔ m ∈ s.macros ∧ m.identifier ≠ name := by
  rw [(deleteMacro_perm s name).mem_iff, List.mem_eraseIdx_iff_getElem]
  constructor
  · rintro ⟨i, hi, hne, rfl⟩
    refine ⟨List.getElem_mem hi, fun hname => hne ?_⟩
    have hlt : s.macros.findIdx (fun m => decide (m.identifier = name)) < s.macros.length :=
      List.findIdx_lt_length_of_exists ⟨_, List.getElem_mem hi, decide_eq_true hname⟩
    have hfound := List.findIdx_getElem (w := hlt)
    rw [decide_eq_true_iff] at hfound
    refine (List.getElem?_inj (by rwa [List.length_map]) hs).mp ?_
    rw [List.getElem?_map, List.getElem?_map, List.getElem?_eq_getElem hi,
      List.getElem?_eq_getElem hlt, Option.map_some, Option.map_some, hname, hfound]
  · rintro ⟨hmem, hne⟩
    obtain ⟨i, hi, rfl⟩ := List.getElem_of_mem hmem
    refine ⟨i, hi, fun heq => hne ?_, rfl⟩
    subst heq
    exact of_decide_eq_true (List.findIdx_getElem (w := hi))

lemma deleteMacro_unique (hs : s.UniqueNames) : (deleteMacro s name).UniqueNames := by
  rw [State.UniqueNames, ((deleteMacro_perm s name).map _).nodup_iff]
  exact hs.sublist ((List.eraseIdx_sublist _ _).map _)

lemma findMacro_deleteMacro (hs : s.UniqueNames) :
    findMacro (deleteMacro s name) = Function.update (findMacro s) name none := by
  funext x
  apply Option.ext
  intro v
  rw [findMacro_eq_some (deleteMacro_unique hs), mem_deleteMacro hs]
  by_cases hx : x = name
  · subst hx
    simp
  · rw [Function.update_of_ne hx, findMacro_eq_some hs]
    exact and_iff_left hx

lemma createMacro_unique (hs : s.UniqueNames) (hnew : findMacro s name = none) :
    (createMacro s name value).UniqueNames := by
  rw [State.UniqueNames, createMacro, List.map_append, List.map_singleton, List.nodup_append]
  refine ⟨hs, List.nodup_singleton _, ?_⟩
  rintro x hx y hy rfl
  obtain ⟨m, hm, rfl⟩ := List.mem_map.mp hx
  obtain hname := List.mem_singleton.mp hy
  have := (findMacro_eq_some hs).mpr (show ⟨m.identifier, m.value⟩ ∈ s.macros from hm)
  rw [hname, hnew] at this
  cases this

lemma findMacro_createMacro (hnew : findMacro s name = none) :
    findMacro (createMacro s name value) = Function.update (findMacro s) name (some value) := by
  funext x
  rw [findMacro, createMacro, List.find?_append]
  by_cases hx : x = name
  · subst hx
    rw [findMacro, Option.map_eq_none_iff] at hnew
    rw [hnew, Function.update_self]
    simp
  · rw [Function.update_of_ne hx]
    have hlast : ([⟨name, value⟩] : List Macro).find? (fun m => m.identifier = x) = none := by
      simp [Ne.symm hx]
    rw [hlast, Option.or_none]
    rfl

end

section

variable {s s' : State} {d : Directive} {b : Block}

/-- **A directive** does to the table what it does to the map. -/
lemma apply_macros (hs : s.UniqueNames)
    (hnew : ∀ name value, d = .define name value → findMacro s name = none) :
    (s.apply d).UniqueNames ∧ findMacro (s.apply d) = Env.apply (findMacro s) d := by
  cases d with
  | define name value =>
    have h := hnew name value rfl
    exact ⟨createMacro_unique hs h, findMacro_createMacro h⟩
  | undef name => exact ⟨deleteMacro_unique hs, findMacro_deleteMacro hs⟩
  | line number file => exact ⟨hs, rfl⟩
  | other => exact ⟨hs, rfl⟩

lemma step_macros (hs : s.UniqueNames) (hnew : b.IsDirective → ∀ name value,
    b.directive = .define name value → findMacro s name = none) :
    (step s b).UniqueNames ∧ findMacro (step s b) = b.env (findMacro s) := by
  rw [step, State.UniqueNames, emitAll_macros, findMacro_emitAll, Block.env]
  split_ifs with hdir
  · exact apply_macros hs (hnew hdir)
  · exact ⟨hs, rfl⟩

end

/-! ### The values -/

/-- The values of the macros come from lines of the source. -/
def State.GoodValues (s : State) : Prop :=
  ∀ m ∈ s.macros, newline ∉ m.value ∧ m.value.length < 2 ^ 32

section

variable {s : State} {l src name value : Text} {b : Block} {bs : List Block} {env : Env}

lemma beginsWithWord_suffix {w t : Text} (h : beginsWithWord l w = some t) : t <:+ l := by
  obtain ⟨rfl, -⟩ := beginsWithWord_eq_some h
  exact List.suffix_append w t

lemma directiveOf_value (h : directiveOf l = .define name value) : value <:+ l := by
  rw [directiveOf] at h
  split at h
  · rename_i t hdefine
    obtain ⟨-, rfl⟩ := Directive.define.inj h
    exact (List.dropWhile_suffix _).trans ((List.dropWhile_suffix _).trans
      ((List.dropWhile_suffix _).trans (beginsWithWord_suffix hdefine)))
  · split at h
    · cases h
    · split at h <;> cases h

lemma Block.directive_value (h : b.directive = .define name value) : value <:+ b.body :=
  (directiveOf_value h).trans ((List.dropWhile_suffix _).trans (List.tail_suffix _))

lemma State.GoodValues.find (hs : s.GoodValues) (h : findMacro s name = some value) :
    newline ∉ value ∧ value.length < 2 ^ 32 :=
  hs _ (findMacro_mem h)

lemma State.GoodValues.step (hs : s.GoodValues) (hb : b.Valid) (hlength : b.body.length < 2 ^ 32) :
    (step s b).GoodValues := by
  rw [Preprocessor.step, State.GoodValues, emitAll_macros]
  split_ifs with hdir
  · cases hd : b.directive with
    | define name value =>
      have hvalue := Block.directive_value hd
      intro m hm
      rcases List.mem_append.mp hm with hm | hm
      · exact hs m hm
      · obtain rfl := List.mem_singleton.mp hm
        exact ⟨fun hmem => hb.line (hvalue.subset hmem), hvalue.length_le.trans_lt hlength⟩
    | undef name =>
      intro m hm
      exact hs m ((List.eraseIdx_sublist _ _).subset ((deleteMacro_perm s name).subset hm))
    | line number file => exact hs
    | other => exact hs
  · exact hs

lemma cut_length (env : Env) (seg word l : Text) :
    (∀ p ∈ usePieces (cut env seg word l).1,
      p.length ≤ seg.length + word.length + l.length ∨ ∃ name, env name = some p) ∧
    (cut env seg word l).2.length ≤ seg.length + word.length + l.length := by
  induction l generalizing seg word with
  | nil =>
    rw [cut]
    split
    · rename_i v hv
      split_ifs at hv
      refine ⟨fun p hp => ?_, Nat.zero_le _⟩
      simp only [usePieces, List.flatMap_singleton, List.mem_cons, List.not_mem_nil, or_false] at hp
      rcases hp with rfl | rfl
      · exact .inl (by omega)
      · exact .inr ⟨word, hv⟩
    · refine ⟨fun p hp => absurd hp List.not_mem_nil, ?_⟩
      rw [List.length_append, List.length_nil, Nat.add_zero]
  | cons c l ih =>
    -- What is read goes from the line to the text before it or to the word.
    have hmove : ∀ seg' word', seg'.length + word'.length + l.length =
        seg.length + word.length + (c :: l).length →
        (∀ p ∈ usePieces (cut env seg' word' l).1,
          p.length ≤ seg.length + word.length + (c :: l).length ∨ ∃ name, env name = some p) ∧
        (cut env seg' word' l).2.length ≤ seg.length + word.length + (c :: l).length :=
      fun seg' word' h => h ▸ ih seg' word'
    rw [cut]
    split_ifs with hword hstart hident
    · exact hmove seg [c] (by simp [hword]; omega)
    · exact hmove (seg ++ [c]) [] (by simp [hword]; omega)
    · exact hmove seg (word ++ [c]) (by simp; omega)
    · split
      · rename_i v hv
        obtain ⟨huses, hlast⟩ := ih [c] []
        simp only [List.length_cons, List.length_nil] at huses hlast
        refine ⟨fun p hp => ?_, by dsimp only; rw [List.length_cons]; omega⟩
        rw [usePieces, List.flatMap_cons] at hp
        rcases List.mem_append.mp hp with hp | hp
        · simp only [List.mem_cons, List.not_mem_nil, or_false] at hp
          rcases hp with rfl | rfl
          · exact .inl (by omega)
          · exact .inr ⟨word, hv⟩
        · refine (huses p hp).imp_left fun h => h.trans ?_
          rw [List.length_cons]
          omega
      · exact hmove (seg ++ word ++ [c]) [] (by simp; omega)

lemma Split.cons_inv (h : Split src (b :: bs)) :
    src = b.space ++ b.body ++ b.rest ∧ b.Valid ∧ Split b.rest bs := by
  cases h with
  | block h hs => exact ⟨rfl, h, hs⟩

/-- The macros of the first line come behind some text. -/
def StartsPlain (s : State) (src : Text) (bs : List Block) : Prop :=
  Ends src ∨ ∀ b ∈ bs.head?, ¬b.IsDirective →
    ∀ u ∈ (cut (findMacro s) b.space [] b.body).1, u.1 ≠ []

lemma allPlain (hsplit : Split src bs) (hlength : src.length < 2 ^ 32) (hs : s.GoodValues)
    (hstart : StartsPlain s src bs) : AllPlain s bs := by
  induction bs generalizing s src with
  | nil => trivial
  | cons b bs ih =>
    obtain ⟨rfl, hb, hsplit⟩ := hsplit.cons_inv
    rw [List.length_append, List.length_append] at hlength
    obtain ⟨huses, hlast⟩ := cut_length (findMacro s) b.space [] b.body
    rw [List.length_nil] at huses hlast
    refine ⟨⟨fun hdir => ?_, fun _ p hp => ?_, fun _ => by omega⟩,
      ih hsplit (by omega) (hs.step hb (by omega)) (.inl hb.ends)⟩
    · rcases hstart with hends | hfirst
      · refine cut_uses_ne_nil (.inl ?_) (.inl rfl)
        obtain ⟨c, t, hbody, hc⟩ := hb.body
        rintro hspace
        rw [hspace, hbody] at hends
        rcases hends with h | ⟨u, h⟩
        · cases h
        · obtain rfl := (List.cons.inj h).1
          cases hc
      · exact hfirst b rfl hdir
    · rcases huses p hp with h | ⟨name, h⟩
      · omega
      · exact (hs.find h).2

end

/-! ### Runs -/

/-- The pieces that a source is emitted in. -/
def allPieces (env : Env) : List Block → List Text
  | [] => [[newline]]
  | b :: bs => b.pieces env ++ allPieces (b.env env) bs

/-- What holds before the rest of a source is read. -/
structure Ready (s : State) (src : Text) (bs : List Block) : Prop where
  split : Split src bs
  length : src.length < 2 ^ 32
  values : s.GoodValues
  names : s.UniqueNames
  new : NewNames s bs

section

variable {s : State} {src : Text} {b : Block} {bs : List Block}

namespace Ready

lemma valid (h : Ready s src (b :: bs)) : b.Valid := h.split.cons_inv.2.1

lemma src_eq (h : Ready s src (b :: bs)) : src = b.space ++ b.body ++ b.rest := h.split.cons_inv.1

lemma length_lt (h : Ready s src (b :: bs)) :
    b.space.length + b.body.length + b.rest.length < 2 ^ 32 := by
  have hlength := h.length
  rwa [h.src_eq, List.length_append, List.length_append] at hlength

lemma step_eq (h : Ready s src (b :: bs)) : findMacro (step s b) = b.env (findMacro s) :=
  (step_macros h.names h.new.1).2

lemma step (h : Ready s src (b :: bs)) : Ready (step s b) b.rest bs where
  split := h.split.cons_inv.2.2
  length := by have := h.length_lt; omega
  values := h.values.step h.valid (by have := h.length_lt; omega)
  names := (step_macros h.names h.new.1).1
  new := h.new.2

lemma pieces_length (h : Ready s src (b :: bs)) :
    ∀ p ∈ b.pieces (findMacro s), p.length < 2 ^ 32 := by
  have hlength := h.length_lt
  obtain ⟨huses, hlast⟩ := cut_length (findMacro s) b.space [] b.body
  rw [List.length_nil] at huses hlast
  intro p hp
  rw [Block.pieces] at hp
  split_ifs at hp with hdir
  · rw [List.eq_of_mem_replicate hp]
    decide
  · rcases List.mem_append.mp hp with hp | hp
    · rcases huses p hp with hle | ⟨name, hname⟩
      · omega
      · exact (h.values.find hname).2
    · obtain rfl := List.mem_singleton.mp hp
      split_ifs
      · omega
      · exact hlast.trans_lt (by omega)

end Ready

lemma apply_data (s : State) (d : Directive) : (s.apply d).data = s.data ∧
    (s.apply d).capacity = s.capacity ∧ (s.apply d).inside = s.inside := by
  cases d with
  | undef name =>
    rw [State.apply, deleteMacro]
    split
    · split_ifs <;> exact ⟨rfl, rfl, rfl⟩
    · exact ⟨rfl, rfl, rfl⟩
  | _ => exact ⟨rfl, rfl, rfl⟩

lemma step_data (h : Ready s src (b :: bs)) :
    (step s b).data = s.data ++ (b.pieces (findMacro s)).flatten := by
  rw [Preprocessor.step, emitAll_data _ h.pieces_length]
  split_ifs
  · rw [(apply_data s b.directive).1]
  · rfl

lemma run_data (h : Ready s src bs) : (append (bs.foldl step s) [newline]).data =
    s.data ++ (allPieces (findMacro s) bs).flatten := by
  induction bs generalizing s src with
  | nil =>
    rw [List.foldl_nil, append_data s (by decide)]
    rfl
  | cons b bs ih =>
    rw [List.foldl_cons, ih h.step, step_data h, h.step_eq, allPieces, List.flatten_append,
      List.append_assoc]

/-- The macros behind a source. -/
def allEnv (env : Env) (bs : List Block) : Env := bs.foldl Block.env env

/-- **The macros** behind a source are those of the map. -/
lemma run_macros (h : Ready s src bs) :
    (append (bs.foldl Preprocessor.step s) [newline]).GoodValues ∧
    (append (bs.foldl Preprocessor.step s) [newline]).UniqueNames ∧
    findMacro (append (bs.foldl Preprocessor.step s) [newline]) = allEnv (findMacro s) bs := by
  induction bs generalizing s src with
  | nil => exact ⟨h.values, h.names, rfl⟩
  | cons b bs ih =>
    rw [List.foldl_cons, allEnv, List.foldl_cons, ← h.step_eq]
    exact ih h.step

end

end KernelModel.Glsl.Preprocessor
