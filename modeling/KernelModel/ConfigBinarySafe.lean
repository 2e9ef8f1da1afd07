import KernelModel.ConfigBinary

/-!
Binary configurations that are malformed.

A tag that fails deletes itself, and an array that fails deletes its tags. The tag that made it
fail is still in the array, and if it was allocated it is deleted a second time. So all goes
well only if the first malformed tag is the root, or a tag in the root that was not allocated.
-/

namespace KernelModel.Config

/-! ### The whole file -/

/-- `_parse_binary_config` of a file that is neither encrypted nor compressed. A size that is less
than that of the header puts the end before the first tag. -/
def parseBinaryConfig (data : List UInt8) : Parsed Node :=
  if data.length < 10 then .null .null [] []
  else
    match readWord data, (data.drop 4).head?, readWord (data.drop 6) with
    | some (signature, _), some version, some (size, rest) =>
      if signature ≠ 0x80474643 ∨ version ≠ 1 ∨ data.length < size then .null .null [] []
      else parseBinaryTag (data.length + 1) rest (size - 10) 0
    | _, _, _ => .fault

/-- Everything that was allocated was freed once, and nothing else was. -/
def FreedOnce (allocated freed : List Object) : Prop :=
  (∀ o ∈ allocated, freed.count o = 1) ∧ ∀ o ∈ freed, o ∈ allocated

/-- The parser ends and reads nothing but the data, and if it fails nothing is left. An allocator
that panics leaves everything. -/
def Parsed.Handled : Parsed Node → Prop
  | .ok _ _ _ _ _ => True
  | .null _ allocated freed => FreedOnce allocated freed
  | .fault => False
  | .spin => False
  | .panic => False
  | .deep => False

/-! ### The first malformed tag -/

/-- What a file is like up to its first malformed tag. -/
inductive Scan
  | good (data : List UInt8) (limit : ℕ)
  /-- The header or the name of a tag so many levels below is not all there. -/
  | cut (level : ℕ)
  /-- The string or the integer of a tag so many levels below is not all there. -/
  | short (level : ℕ)
  /-- A name or a string of no bytes that no zero follows, or an array or a string that is too
  long. -/
  | wild
  | deep
  deriving Repr

def Scan.below : Scan → Scan
  | .cut level => .cut (level + 1)
  | .short level => .short (level + 1)
  | r => r

def scanTags (scan : List UInt8 → ℕ → Scan) : ℕ → List UInt8 → ℕ → Scan
  | 0, data, limit => .good data limit
  | count + 1, data, limit =>
    match scan data limit with
    | .good data limit => scanTags scan count data limit
    | r => r

def scanContent (scan : List UInt8 → ℕ → Scan) (type : UInt8) (length : ℕ) (data : List UInt8)
    (limit : ℕ) : Scan :=
  if type = 1 then
    if arrayMaxLength < length then .wild else (scanTags scan length data limit).below
  else if type = 2 then
    if limit < length then .short 0
    else if Terminated data length then .good (data.drop length) (limit - length)
    else .wild
  else if type = 3 ∨ type = 4 then
    if limit < length then .short 0 else .good (data.drop length) (limit - length)
  else .good data limit

/-- Where the first malformed tag is. -/
def scanTag : ℕ → List UInt8 → ℕ → Scan
  | 0, _, _ => .deep
  | depth + 1, data, limit =>
    if limit < 4 then .cut 0
    else
      match data with
      | type :: nameLength :: low :: high :: data =>
        let length := low.toNat + 2 ^ 8 * high.toNat
        let extra := if length = 0xffff then 4 else 0
        if limit - 4 < nameLength.toNat + extra then .cut 0
        else if Terminated data nameLength.toNat then
          match (if length = 0xffff then readWord (data.drop nameLength.toNat)
            else some (length, data.drop nameLength.toNat)) with
          | none => .wild
          | some (length, data) =>
            scanContent (scanTag depth) type length data (limit - 4 - nameLength.toNat - extra)
        else .wild
      | _ => .wild

/-- No tag is malformed, or the first one is the root, or it is a tag of the root of which the
header or the name is not all there. -/
def Scan.Mild : Scan → Prop
  | .good _ _ => True
  | .cut level => level ≤ 1
  | .short level => level = 0
  | .wild => False
  | .deep => False

/-! ### What is allocated and freed -/

/-- Different allocations, for tags with numbers in a range. -/
structure Fresh (objects : List Object) (lo hi : ℕ) : Prop where
  nodup : objects.Nodup
  range : ∀ o ∈ objects, lo ≤ o.1 ∧ o.1 < hi

section

variable {a b freed : List Object} {lo mid hi id : ℕ} {o : Object}

lemma Fresh.append (ha : Fresh a lo mid) (hb : Fresh b mid hi) (hlo : lo ≤ mid) (hhi : mid ≤ hi) :
    Fresh (a ++ b) lo hi := by
  refine ⟨List.nodup_append.mpr ⟨ha.nodup, hb.nodup, fun o hoa p hpb heq => ?_⟩, fun o ho => ?_⟩
  · have := ha.range o hoa
    have := hb.range p hpb
    rw [heq] at *
    omega
  · rcases List.mem_append.mp ho with ho | ho
    · have := ha.range o ho
      omega
    · have := hb.range o ho
      omega

lemma freedOnce_of_perm (ha : a.Nodup) (h : freed.Perm a) : FreedOnce a freed := by
  refine ⟨fun o ho => ?_, fun o ho => h.mem_iff.mp ho⟩
  rw [h.count_eq]
  exact List.count_eq_one_of_mem ha ho

lemma not_freedOnce (h : 2 ≤ freed.count o) : ¬ FreedOnce a freed := by
  intro hf
  have hmem : o ∈ freed := List.count_pos_iff.mp (by omega)
  have := hf.1 o (hf.2 o hmem)
  omega

end

/-- What the result of reading a tag is, by where the first malformed tag is. -/
def Agrees (id : ℕ) : Scan → Parsed Node → Prop
  | .good data limit, r => ∃ node next allocated, r = .ok node data limit next allocated ∧
    id < next ∧
      Fresh allocated id next ∧ allocated.Perm (configTagDelete node)
  | .cut 0, r => r = .null .null [] []
  | .wild, r => r = .fault ∨ r = .spin ∨ r = .panic
  | .deep, r => r = .deep
  | scan, r => ∃ slot allocated freed, r = .null slot allocated freed ∧
      (FreedOnce allocated freed ↔ scan.Mild) ∧ (id, .tag) ∈ freed ∧
      (id, .tag) ∈ configTagDelete slot

/-- The same for the tags of an array. -/
def AgreesAll (lo : ℕ) : Scan → Parsed (List Node) → Prop
  | .good data limit, r => ∃ nodes next allocated, r = .ok nodes data limit next allocated ∧
      lo ≤ next ∧ Fresh allocated lo next ∧ allocated.Perm (configTagsDelete nodes)
  | .cut 0, r => ∃ nodes allocated hi, r = .null nodes allocated [] ∧ lo ≤ hi ∧
      Fresh allocated lo hi ∧ allocated.Perm (configTagsDelete nodes)
  | .wild, r => r = .fault ∨ r = .spin ∨ r = .panic
  | .deep, r => r = .deep
  | _, r => ∃ nodes allocated freed o, r = .null nodes allocated freed ∧ o ∈ freed ∧
      o ∈ configTagsDelete nodes

section

variable {parse : List UInt8 → ℕ → ℕ → Parsed Node} {scan : List UInt8 → ℕ → Scan} {id : ℕ}

lemma configTagDelete_setParent (node : Node) (id : ℕ) :
    configTagDelete (node.setParent id) = configTagDelete node := by
  cases node <;> simp [Node.setParent, configTagDelete]

lemma configTagsDelete_replicate (n : ℕ) : configTagsDelete (List.replicate n .null) = [] := by
  induction n with
  | zero => rfl
  | succ n ih =>
    rw [List.replicate_succ, configTagsDelete, ih]
    rfl

/-- A tag that is read as a whole comes in front of what the other tags give. -/
lemma AgreesAll.cons {node : Node} {lo mid : ℕ} {allocated : List Object} {others : Scan}
    {r : Parsed (List Node)} (hlt : lo < mid) (hfresh : Fresh allocated lo mid)
    (hperm : allocated.Perm (configTagDelete node)) (h : AgreesAll mid others r) :
    AgreesAll lo others (consTag node id allocated r) := by
  have hdelete : ∀ nodes, configTagsDelete (node.setParent id :: nodes)
      = configTagDelete node ++ configTagsDelete nodes := fun nodes => by
    rw [configTagsDelete, configTagDelete_setParent]
  have hfails : (∃ nodes allocated freed o, r = .null nodes allocated freed ∧ o ∈ freed ∧
      o ∈ configTagsDelete nodes) → ∃ nodes allocated' freed o, consTag node id allocated r
        = .null nodes allocated' freed ∧ o ∈ freed ∧ o ∈ configTagsDelete nodes := by
    rintro ⟨nodes, allocated', freed, o, rfl, hfreed, ho⟩
    refine ⟨node.setParent id :: nodes, allocated ++ allocated', freed, o, rfl, hfreed, ?_⟩
    rw [hdelete]
    exact List.mem_append_right _ ho
  cases others with
  | good data limit =>
    obtain ⟨nodes, next, allocated', rfl, hle, hfresh', hperm'⟩ := h
    refine ⟨_, _, _, rfl, by omega, hfresh.append hfresh' (by omega) hle, ?_⟩
    rw [hdelete]
    exact hperm.append hperm'
  | cut level =>
    cases level with
    | zero =>
      obtain ⟨nodes, allocated', hi, rfl, hle, hfresh', hperm'⟩ := h
      refine ⟨_, _, hi, rfl, by omega, hfresh.append hfresh' (by omega) hle, ?_⟩
      rw [hdelete]
      exact hperm.append hperm'
    | succ level => exact hfails h
  | short level => exact hfails h
  | wild =>
    rcases h with rfl | rfl | rfl
    · exact .inl rfl
    · exact .inr (.inl rfl)
    · exact .inr (.inr rfl)
  | deep =>
    cases h
    rfl

lemma agreesAll (id : ℕ)
    (h : ∀ data limit next, Agrees next (scan data limit) (parse data limit next)) :
    ∀ (count : ℕ) (data : List UInt8) (limit next : ℕ),
      AgreesAll next (scanTags scan count data limit)
        (parseBinaryTags parse id count data limit next)
  | 0, data, limit, next =>
    ⟨[], next, [], rfl, le_rfl, ⟨List.nodup_nil, by simp⟩, List.Perm.refl _⟩
  | count + 1, data, limit, next => by
    have hfirst := h data limit next
    -- a tag that was allocated and deleted stays in the array
    have hslot : ∀ {mild : Prop}, (∃ slot allocated freed, parse data limit next
        = .null slot allocated freed ∧ (FreedOnce allocated freed ↔ mild) ∧ (next, .tag) ∈ freed ∧
        (next, .tag) ∈ configTagDelete slot) →
        ∃ nodes allocated freed o, parseBinaryTags parse id (count + 1) data limit next
          = .null nodes allocated freed ∧ o ∈ freed ∧ o ∈ configTagsDelete nodes := by
      rintro mild ⟨slot, allocated, freed, hnull, -, hfreed, ho⟩
      refine ⟨slot :: List.replicate count .null, allocated, freed, (next, .tag), ?_, hfreed, ?_⟩
      · rw [parseBinaryTags, hnull]
      · exact List.mem_append_left _ ho
    rw [parseBinaryTags] at hslot
    rw [scanTags, parseBinaryTags]
    cases hscan : scan data limit with
    | good data₁ limit₁ =>
      rw [hscan] at hfirst
      obtain ⟨node, next₁, allocated, hok, hlt, hfresh, hperm⟩ := hfirst
      rw [hok]
      exact (agreesAll id h count data₁ limit₁ next₁).cons hlt hfresh hperm
    | cut level =>
      rw [hscan] at hfirst
      cases level with
      | zero =>
        rw [hfirst]
        refine ⟨_, [], next, rfl, le_rfl, ⟨List.nodup_nil, by simp⟩, ?_⟩
        rw [configTagsDelete, configTagsDelete_replicate]
        exact List.Perm.refl _
      | succ level => exact hslot hfirst
    | short level =>
      rw [hscan] at hfirst
      exact hslot hfirst
    | wild =>
      rw [hscan] at hfirst
      rcases hfirst with hr | hr | hr
      · rw [hr]
        exact .inl rfl
      · rw [hr]
        exact .inr (.inl rfl)
      · rw [hr]
        exact .inr (.inr rfl)
    | deep =>
      rw [hscan] at hfirst
      rw [hfirst]
      rfl

lemma fresh_tag (id : ℕ) : Fresh [(id, .tag), (id, .name)] id (id + 1) := by
  refine ⟨by simp, fun o ho => ?_⟩
  simp only [List.mem_cons, List.not_mem_nil, or_false] at ho
  rcases ho with rfl | rfl
  · exact ⟨le_rfl, Nat.lt_succ_self id⟩
  · exact ⟨le_rfl, Nat.lt_succ_self id⟩

lemma fresh_array {allocated : List Object} {hi : ℕ} (h : Fresh allocated (id + 1) hi)
    (hle : id + 1 ≤ hi) :
    Fresh ([(id, .tag), (id, .name), (id, .array)] ++ allocated) id hi := by
  have hparts : Fresh [(id, .tag), (id, .name), (id, .array)] id (id + 1) := by
    refine ⟨by simp, fun o ho => ?_⟩
    simp only [List.mem_cons, List.not_mem_nil, or_false] at ho
    rcases ho with rfl | rfl | rfl
    · exact ⟨le_rfl, Nat.lt_succ_self id⟩
    · exact ⟨le_rfl, Nat.lt_succ_self id⟩
    · exact ⟨le_rfl, Nat.lt_succ_self id⟩
  exact hparts.append h (Nat.le_succ id) hle

lemma perm_array {allocated : List Object} {nodes : List Node} (name : List UInt8)
    (h : allocated.Perm (configTagsDelete nodes)) :
    ([(id, Part.tag), (id, Part.name), (id, Part.array)] ++ allocated).Perm
      (configTagDelete (.array id none name nodes)) := by
  rw [configTagDelete]
  have hparts : [(id, Part.tag), (id, Part.name), (id, Part.array)].Perm
      [(id, Part.array), (id, Part.name), (id, Part.tag)] :=
    List.reverse_perm [(id, Part.array), (id, Part.name), (id, Part.tag)]
  exact List.perm_append_comm.trans (h.append hparts)

lemma agrees_array {name data : List UInt8} {length limit : ℕ}
    (h : ∀ data limit next, Agrees next (scan data limit) (parse data limit next)) :
    Agrees id (scanContent scan 1 length data limit)
      (parseBinaryContent parse 1 id name length data limit) := by
  unfold scanContent parseBinaryContent
  simp only [if_true]
  by_cases hsize : arrayMaxLength < length
  · rw [if_pos hsize]
    split_ifs with hfits hcut
    · exact .inl rfl
    · exact absurd (fits_array_iff.mp ⟨hfits, Nat.lt_of_not_le hcut⟩) (Nat.not_le_of_lt hsize)
    · exact .inr (.inr rfl)
  obtain ⟨hfits, hcut⟩ := fits_array_iff.mpr (Nat.le_of_not_lt hsize)
  rw [if_neg hsize, if_neg (not_not_intro hfits), if_neg (Nat.not_le_of_lt hcut)]
  have hall := agreesAll id h length data limit (id + 1)
  have hown : ∀ nodes, (id, .tag) ∈ configTagDelete (.array id none name nodes) := fun nodes => by
    rw [configTagDelete]
    simp
  -- what was freed before is freed again with the array
  have htwice : ∀ {r} {mild : Prop}, ¬ mild → (∃ nodes allocated freed o,
      r = .null nodes allocated freed ∧ o ∈ freed ∧ o ∈ configTagsDelete nodes) →
      ∃ slot allocated freed, arrayTag id name r = .null slot allocated freed ∧
        (FreedOnce allocated freed ↔ mild) ∧ (id, .tag) ∈ freed ∧
        (id, .tag) ∈ configTagDelete slot := by
    rintro _ mild hmild ⟨nodes, allocated, freed, o, rfl, hfreed, ho⟩
    refine ⟨_, _, _, rfl, iff_of_false (not_freedOnce (o := o) ?_) hmild, ?_, hown []⟩
    · rw [List.count_append, configTagDelete, List.count_append]
      have := List.count_pos_iff.mpr hfreed
      have := List.count_pos_iff.mpr ho
      omega
    · exact List.mem_append_right _ (hown nodes)
  cases hscans : scanTags scan length data limit with
  | good data₁ limit₁ =>
    rw [hscans] at hall
    obtain ⟨nodes, next, allocated, hok, hle, hfresh, hperm⟩ := hall
    rw [hok]
    exact ⟨_, _, _, rfl, hle, fresh_array hfresh hle, perm_array name hperm⟩
  | cut level =>
    rw [hscans] at hall
    cases level with
    | zero =>
      obtain ⟨nodes, allocated, hi, hnull, hle, hfresh, hperm⟩ := hall
      rw [hnull]
      refine ⟨_, _, _, rfl, iff_of_true ?_ le_rfl, hown nodes, hown []⟩
      exact freedOnce_of_perm (fresh_array hfresh hle).nodup (perm_array name hperm).symm
    | succ level => exact htwice (by simp [Scan.Mild]) hall
  | short level =>
    rw [hscans] at hall
    exact htwice (by simp [Scan.Mild, Scan.below]) hall
  | wild =>
    rw [hscans] at hall
    rcases hall with hr | hr | hr
    · rw [hr]
      exact .inl rfl
    · rw [hr]
      exact .inr (.inl rfl)
    · rw [hr]
      exact .inr (.inr rfl)
  | deep =>
    rw [hscans] at hall
    rw [hall]
    rfl

lemma agrees_short {node : Node}
    (hdelete : configTagDelete node = [(id, .name), (id, .tag)]) (hslot : node.deleted = node) :
    Agrees id (.short 0) (failWith node [(id, .tag), (id, .name)] []) := by
  refine ⟨_, _, _, rfl, iff_of_true ?_ rfl, ?_, ?_⟩
  · refine freedOnce_of_perm (fresh_tag id).nodup ?_
    rw [List.nil_append, hdelete]
    exact List.reverse_perm [(id, Part.tag), (id, Part.name)]
  · rw [List.nil_append, hdelete]
    simp
  · rw [hslot, hdelete]
    simp

lemma readWord_lt {data : List UInt8} {word : ℕ × List UInt8} (h : readWord data = some word) :
    word.1 < 2 ^ 32 := by
  rw [readWord.eq_def] at h
  split at h
  · next a b c d rest =>
    cases h
    have := a.toNat_lt
    have := b.toNat_lt
    have := c.toNat_lt
    have := d.toNat_lt
    dsimp only
    omega
  · cases h

lemma agrees_content {name data : List UInt8} {type : UInt8} {length limit : ℕ}
    (hlength : length < 2 ^ 32)
    (h : ∀ data limit next, Agrees next (scan data limit) (parse data limit next)) :
    Agrees id (scanContent scan type length data limit)
      (parseBinaryContent parse type id name length data limit) := by
  have hperm : [(id, Part.tag), (id, Part.name)].Perm [(id, Part.name), (id, Part.tag)] :=
    List.reverse_perm [(id, Part.name), (id, Part.tag)]
  by_cases harray : type = 1
  · subst harray
    exact agrees_array h
  unfold scanContent parseBinaryContent
  simp only [harray, if_false]
  by_cases hstring : type = 2
  · simp only [hstring, if_true]
    by_cases hlimit : limit < length
    · rw [if_pos hlimit, if_pos hlimit]
      exact agrees_short rfl rfl
    · rw [if_neg hlimit, if_neg hlimit]
      rcases smmAlloc_cases data hlength with
        ⟨hterm, -, n, hok, -⟩ | ⟨hterm, ⟨-, hok⟩ | ⟨-, hok | hok⟩⟩
      · rw [hok, if_pos hterm]
        refine ⟨_, _, _, rfl, Nat.lt_succ_self id, ⟨by simp, fun o ho => ?_⟩, ?_⟩
        · simp only [List.mem_append, List.mem_cons, List.not_mem_nil, or_false] at ho
          rcases ho with (rfl | rfl) | rfl
          · exact ⟨le_rfl, Nat.lt_succ_self id⟩
          · exact ⟨le_rfl, Nat.lt_succ_self id⟩
          · exact ⟨le_rfl, Nat.lt_succ_self id⟩
        · exact List.perm_append_comm.trans ((List.Perm.refl [(id, Part.string)]).append hperm)
      · rw [hok, if_neg hterm]
        exact .inr (.inr rfl)
      · rw [hok, if_neg hterm]
        exact .inl rfl
      · rw [hok, if_neg hterm]
        exact .inr (.inl rfl)
  simp only [hstring, if_false]
  by_cases hint : type = 3 ∨ type = 4
  · simp only [hint, if_true]
    by_cases hlimit : limit < length
    · rw [if_pos hlimit, if_pos hlimit]
      exact agrees_short rfl rfl
    · rw [if_neg hlimit, if_neg hlimit]
      exact ⟨_, _, _, rfl, Nat.lt_succ_self id, fresh_tag id, hperm⟩
  · simp only [hint, if_false]
    exact ⟨_, _, _, rfl, Nat.lt_succ_self id, fresh_tag id, hperm⟩

/-- **The parser and the first malformed tag** of what it is given. -/
lemma agreesTag : ∀ (depth : ℕ) (data : List UInt8) (limit id : ℕ),
    Agrees id (scanTag depth data limit) (parseBinaryTag depth data limit id)
  | 0, _, _, _ => rfl
  | depth + 1, data, limit, id => by
    rw [scanTag.eq_def, parseBinaryTag.eq_def]
    simp only
    by_cases hheader : limit < 4
    · rw [if_pos hheader, if_pos hheader]
      rfl
    rw [if_neg hheader, if_neg hheader]
    match data with
    | [] => exact .inl rfl
    | [_] => exact .inl rfl
    | [_, _] => exact .inl rfl
    | [_, _, _] => exact .inl rfl
    | type :: nameLength :: low :: high :: data =>
      simp only
      by_cases hname : limit - 4 < nameLength.toNat
          + if low.toNat + 2 ^ 8 * high.toNat = 0xffff then 4 else 0
      · rw [if_pos hname, if_pos hname]
        rfl
      rw [if_neg hname, if_neg hname]
      have hname_lt : nameLength.toNat < 2 ^ 32 := nameLength.toNat_lt.trans (by norm_num)
      rcases smmAlloc_cases data hname_lt with
        ⟨hterm, -, n, hok, -⟩ | ⟨hterm, ⟨-, hok⟩ | ⟨-, hok | hok⟩⟩
      · rw [hok, if_pos hterm]
        simp only
        cases hword : (if low.toNat + 2 ^ 8 * high.toNat = 0xffff then
            readWord (data.drop nameLength.toNat)
          else some (low.toNat + 2 ^ 8 * high.toNat, data.drop nameLength.toNat)) with
        | none => exact .inl rfl
        | some word =>
          refine agrees_content ?_ (agreesTag depth)
          have hlow := low.toNat_lt
          have hhigh := high.toNat_lt
          split_ifs at hword
          · exact readWord_lt hword
          · cases hword
            omega
      · rw [hok, if_neg hterm]
        exact .inr (.inr rfl)
      · rw [hok, if_neg hterm]
        exact .inl rfl
      · rw [hok, if_neg hterm]
        exact .inr (.inl rfl)

lemma Agrees.handled {scan : Scan} {r : Parsed Node} (h : Agrees id scan r) :
    r.Handled ↔ scan.Mild := by
  cases scan with
  | good data limit =>
    obtain ⟨node, next, allocated, rfl, -⟩ := h
    exact Iff.rfl
  | cut level =>
    cases level with
    | zero =>
      obtain rfl := h
      exact iff_of_true ⟨by simp, by simp⟩ (Nat.zero_le 1)
    | succ level =>
      obtain ⟨slot, allocated, freed, rfl, hiff, -⟩ := h
      exact hiff
  | short level =>
    obtain ⟨slot, allocated, freed, rfl, hiff, -⟩ := h
    exact hiff
  | wild =>
    rcases h with rfl | rfl | rfl
    · exact Iff.rfl
    · exact Iff.rfl
    · exact Iff.rfl
  | deep =>
    obtain rfl := h
    exact Iff.rfl

/-! ### The depth of the tags -/

/-- What is left is no more than there was, and the tags are not nested deeper than there are
bytes. -/
def Scan.Within (depth limit : ℕ) : Scan → Prop
  | .good _ limit' => limit' ≤ limit
  | .deep => depth ≤ limit
  | _ => True

lemma Scan.Within.mono {scan : Scan} {depth depth' limit limit' : ℕ} (h : scan.Within depth limit)
    (hle : limit ≤ limit') (hdepth : depth ≤ limit → depth' ≤ limit') :
    scan.Within depth' limit' := by
  cases scan with
  | good data l => exact le_trans h hle
  | cut => trivial
  | short => trivial
  | wild => trivial
  | deep => exact hdepth h

lemma scanTags_within {depth : ℕ} (h : ∀ data limit, (scan data limit).Within depth limit) :
    ∀ (count : ℕ) (data : List UInt8) (limit : ℕ),
      (scanTags scan count data limit).Within depth limit
  | 0, _, _ => le_rfl
  | count + 1, data, limit => by
    have hfirst := h data limit
    rw [scanTags]
    cases hscan : scan data limit with
    | good data₁ limit₁ =>
      rw [hscan] at hfirst
      exact (scanTags_within h count data₁ limit₁).mono hfirst fun hd => hd.trans hfirst
    | cut => trivial
    | short => trivial
    | wild => trivial
    | deep =>
      rw [hscan] at hfirst
      exact hfirst

lemma scanContent_within {depth : ℕ} (h : ∀ data limit, (scan data limit).Within depth limit)
    (type : UInt8) (length : ℕ) (data : List UInt8) (limit : ℕ) :
    (scanContent scan type length data limit).Within depth limit := by
  unfold scanContent
  split_ifs
  · trivial
  · have := scanTags_within h length data limit
    cases hscan : scanTags scan length data limit with
    | good => rw [hscan] at this; exact this
    | cut => trivial
    | short => trivial
    | wild => trivial
    | deep => rw [hscan] at this; exact this
  · trivial
  · exact Nat.sub_le _ _
  · trivial
  · trivial
  · exact Nat.sub_le _ _
  · exact le_rfl

lemma scanTag_within : ∀ (depth : ℕ) (data : List UInt8) (limit : ℕ),
    (scanTag depth data limit).Within depth limit
  | 0, _, _ => Nat.zero_le _
  | depth + 1, data, limit => by
    rw [scanTag.eq_def]
    simp only
    by_cases hheader : limit < 4
    · rw [if_pos hheader]
      trivial
    rw [if_neg hheader]
    match data with
    | [] => trivial
    | [_] => trivial
    | [_, _] => trivial
    | [_, _, _] => trivial
    | type :: nameLength :: low :: high :: data =>
      simp only
      split_ifs
      · trivial
      · cases readWord (data.drop nameLength.toNat) with
        | none => trivial
        | some word =>
          refine (scanContent_within (scanTag_within depth) type word.1 word.2 _).mono ?_ ?_
          · omega
          · intro hd
            omega
      · trivial
      · trivial
      · refine (scanContent_within (scanTag_within depth) type _ _ _).mono ?_ ?_
        · omega
        · intro hd
          omega
      · trivial

end

/-! ### Files -/

/-- Where the first malformed tag of a file is; a file with a wrong header has none. -/
def scanConfig (data : List UInt8) : Scan :=
  match readWord data, (data.drop 4).head?, readWord (data.drop 6) with
  | some (signature, _), some version, some (size, rest) =>
    if signature ≠ 0x80474643 ∨ version ≠ 1 ∨ data.length < size then .cut 0
    else scanTag (data.length + 1) rest (size - 10)
  | _, _, _ => .cut 0

lemma readWord_isSome (data : List UInt8) (h : 4 ≤ data.length) :
    ∃ word, readWord data = some word := by
  match data with
  | a :: b :: c :: d :: rest => exact ⟨_, rfl⟩
  | [] => simp at h
  | [_] => simp at h
  | [_, _] => simp at h
  | [_, _, _] => simp at h

lemma readWord_eq_none (data : List UInt8) (h : data.length < 4) : readWord data = none := by
  match data with
  | a :: b :: c :: d :: rest =>
    simp only [List.length_cons] at h
    omega
  | [] => rfl
  | [_] => rfl
  | [_, _] => rfl
  | [_, _, _] => rfl

lemma agreesConfig (data : List UInt8) : Agrees 0 (scanConfig data) (parseBinaryConfig data) := by
  unfold scanConfig parseBinaryConfig
  by_cases hshort : data.length < 10
  · rw [if_pos hshort, readWord_eq_none (data.drop 6) (by rw [List.length_drop]; omega)]
    cases readWord data with
    | none => rfl
    | some word =>
      cases (data.drop 4).head? with
      | none => rfl
      | some version => rfl
  · rw [if_neg hshort]
    obtain ⟨⟨signature, tail⟩, hsignature⟩ := readWord_isSome data (by omega)
    obtain ⟨⟨size, rest⟩, hsize⟩ := readWord_isSome (data.drop 6)
      (by rw [List.length_drop]; omega)
    obtain ⟨version, hversion⟩ : ∃ version, (data.drop 4).head? = some version := by
      cases hdrop : data.drop 4 with
      | nil =>
        have := List.drop_eq_nil_iff.mp hdrop
        omega
      | cons version _ => exact ⟨version, rfl⟩
    rw [hsignature, hversion, hsize]
    simp only
    split_ifs
    · rfl
    · exact agreesTag _ _ _ _

lemma scanConfig_ne_deep (data : List UInt8) : scanConfig data ≠ .deep := by
  unfold scanConfig
  split
  · split_ifs with hbad
    · simp
    · intro hdeep
      rename_i signature _ version size rest _ _ _
      have := scanTag_within (data.length + 1) rest (size - 10)
      rw [hdeep] at this
      rw [not_or, not_or] at hbad
      have h : data.length + 1 ≤ size - 10 := this
      omega
  · simp

end KernelModel.Config
