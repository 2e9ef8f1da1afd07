import KernelModel.ConfigBinary

/-!
Binary configurations that are written and read back.

Lengths, counts and integers come back as they were. A name or a string of no bytes does not: a
string is allocated with the length 0 as if its end were not known, and gets the bytes that
follow up to the next zero.
-/

namespace KernelModel.Config

/-! ### Numbers -/

section

variable {n value : ℕ} {rest : List UInt8}

@[simp] lemma length_bytesOf (value n : ℕ) : (bytesOf value n).length = n := by
  induction n generalizing value with
  | zero => rfl
  | succ n ih => rw [bytesOf, List.length_cons, ih]

lemma toNat_ofNat_byte (value : ℕ) : (UInt8.ofNat value).toNat = value % 2 ^ 8 :=
  UInt8.toNat_ofNat'

lemma bytesOf_two (value : ℕ) (h : value < 2 ^ 16) : ∃ low high, bytesOf value 2 = [low, high] ∧
    low.toNat + 2 ^ 8 * high.toNat = value := by
  refine ⟨_, _, rfl, ?_⟩
  rw [toNat_ofNat_byte, toNat_ofNat_byte]
  omega

lemma readWord_bytesOf (h : value < 2 ^ 32) :
    readWord (bytesOf value 4 ++ rest) = some (value, rest) := by
  simp only [bytesOf, List.cons_append, List.nil_append, readWord, toNat_ofNat_byte]
  congr 2
  omega

lemma byteLength_le (value : ℕ) (h : value < 2 ^ 64) : byteLength value ≤ 8 := by
  unfold byteLength
  split_ifs with hz
  · omega
  · have := (Nat.log2_lt hz).mpr h
    omega

lemma lt_byteLength (value : ℕ) : value < 2 ^ (8 * byteLength value) := by
  unfold byteLength
  split_ifs with hz
  · rw [hz]
    norm_num
  · exact (Nat.log2_lt hz).mp (by omega)

lemma readInt_bytesOf : ∀ (n i value : ℕ) (v : BitVec 64), 8 * (i + n) ≤ 64 →
    v.toNat < 2 ^ (8 * i) → value < 2 ^ (8 * n) →
    (readInt v i (bytesOf value n)).toNat = v.toNat + 2 ^ (8 * i) * value
  | 0, i, value, v, _, _, hvalue => by
    have : value = 0 := by
      norm_num at hvalue
      exact hvalue
    rw [this, bytesOf, readInt]
    rfl
  | n + 1, i, value, v, hi, hv, hvalue => by
    have hshift : 8 * i % 64 = 8 * i := Nat.mod_eq_of_lt (by omega)
    have hpow : 2 ^ (8 * (i + 1)) = 2 ^ (8 * i) * 2 ^ 8 := by rw [← pow_add]; rfl
    have hle : 2 ^ (8 * (i + 1)) ≤ 2 ^ 64 := Nat.pow_le_pow_right (by norm_num) (by omega)
    have hbyte : value % 2 ^ 8 < 2 ^ 8 := Nat.mod_lt _ (by norm_num)
    have hlt : 2 ^ (8 * i) * (value % 2 ^ 8) + 2 ^ (8 * i) ≤ 2 ^ (8 * (i + 1)) := by
      rw [hpow, ← Nat.mul_succ]
      exact Nat.mul_le_mul_left _ hbyte
    have hpos : 0 < 2 ^ (8 * i) := Nat.two_pow_pos _
    have hor : (v ||| (BitVec.ofNat 64 (UInt8.ofNat value).toNat <<< (8 * i % 64))).toNat
        = v.toNat + 2 ^ (8 * i) * (value % 2 ^ 8) := by
      rw [hshift, BitVec.toNat_or, BitVec.toNat_shiftLeft, BitVec.toNat_ofNat, toNat_ofNat_byte,
        Nat.mod_eq_of_lt (hbyte.trans (by norm_num)), Nat.shiftLeft_eq, mul_comm (value % 2 ^ 8),
        Nat.mod_eq_of_lt (by omega), Nat.or_comm, ← Nat.two_pow_add_eq_or_of_lt hv]
      omega
    have hrest : value / 2 ^ 8 < 2 ^ (8 * n) := by
      refine Nat.div_lt_of_lt_mul ?_
      rw [← pow_add]
      exact hvalue.trans_le (Nat.pow_le_pow_right (by norm_num) (by omega))
    rw [bytesOf, readInt, readInt_bytesOf n (i + 1) (value / 2 ^ 8) _ (by omega)
      (by rw [hor]; omega) hrest, hor, hpow]
    have hsplit := Nat.mod_add_div value (2 ^ 8)
    calc v.toNat + 2 ^ (8 * i) * (value % 2 ^ 8) + 2 ^ (8 * i) * 2 ^ 8 * (value / 2 ^ 8)
        = v.toNat + 2 ^ (8 * i) * (value % 2 ^ 8 + 2 ^ 8 * (value / 2 ^ 8)) := by ring
      _ = v.toNat + 2 ^ (8 * i) * value := by rw [hsplit]

lemma readInt_magnitude (value : BitVec 64) :
    (if value.slt 0 then -readInt 0 0 (bytesOf (magnitude value) (byteLength (magnitude value)))
      else readInt 0 0 (bytesOf (magnitude value) (byteLength (magnitude value)))) = value := by
  have hread : readInt 0 0 (bytesOf (magnitude value) (byteLength (magnitude value)))
      = if value.slt 0 then -value else value := by
    apply BitVec.eq_of_toNat_eq
    have := byteLength_le (magnitude value) (BitVec.isLt _)
    rw [readInt_bytesOf _ 0 _ _ (by omega) (by simp) (lt_byteLength _), magnitude]
    simp
  rw [hread]
  split_ifs
  · exact BitVec.neg_neg
  · rfl

end

/-! ### Names and strings -/

/-- A string of no bytes is kept only if a zero follows it. -/
def Kept (text next : List UInt8) : Prop := text ≠ [] ∨ next.head? = some 0

section

variable {text next got : List UInt8}

lemma smmAlloc_kept (h : Kept text next) (hmax : text.length ≤ stringMaxLength) :
    smmAlloc (text ++ next) text.length = .ok text := by
  by_cases hnil : text = []
  · subst hnil
    have hhead := h.resolve_left (by simp)
    cases next with
    | nil => cases hhead
    | cons c next =>
      obtain rfl := Option.some.inj hhead
      rfl
  · rw [smmAlloc_known (by simpa using hnil), smmCreate_ok hmax, List.take_left]

/-- What is allocated is what was given only if it is kept, and there is memory for it. -/
lemma kept_of_smmAlloc (hlength : text.length < 2 ^ 32)
    (h : smmAlloc (text ++ next) text.length = .ok text) :
    Kept text next ∧ text.length ≤ stringMaxLength := by
  rcases smmAlloc_cases (text ++ next) hlength with
    ⟨hterm, -, n, hn, -⟩ | ⟨-, ⟨-, hn⟩ | ⟨-, hn | hn⟩⟩
  · refine ⟨?_, hterm.1⟩
    by_cases hnil : text = []
    · subst hnil
      rw [List.length_nil, List.nil_append] at h hn
      rcases smmLength_isOk next with ⟨k, -, hk, hmem⟩ | ⟨-, hk | hk⟩
      · have hcreate : smmAlloc next 0 = smmCreate next k := by
          rw [smmAlloc, if_pos rfl, hk]
        rw [hcreate, smmCreate] at h
        split_ifs at h
        have htake : next.take k = [] := Ends.ok.inj h
        cases next with
        | nil =>
          have := (hmem (k + 1)).mpr (Nat.lt_succ_self k)
          simp at this
        | cons c next =>
          obtain rfl : k = 0 := (List.take_eq_nil_iff.mp htake).resolve_right (by simp)
          have hzero := (hmem 1).mpr Nat.one_pos
          exact .inr (by simpa [eq_comm] using hzero)
      · rw [smmAlloc, if_pos rfl, hk] at h
        cases h
      · rw [smmAlloc, if_pos rfl, hk] at h
        cases h
    · exact .inl hnil
  · rw [h] at hn
    cases hn
  · rw [h] at hn
    cases hn
  · rw [h] at hn
    cases hn

end

/-! ### What comes back -/

mutual

/-- The lengths are numbers of 32 bits, those of names of 8 bits. -/
def Storable : Tag → Prop
  | .none name => name.length ≤ 255
  | .array name data => name.length ≤ 255 ∧ data.length < 2 ^ 32 ∧ Storables data
  | .string name text => name.length ≤ 255 ∧ text.length < 2 ^ 32
  | .int name _ => name.length ≤ 255

def Storables : List Tag → Prop
  | [] => True
  | tag :: data => Storable tag ∧ Storables data

end

/-- The bytes of a length that is not in the header. -/
def extraLength (length : ℕ) : List UInt8 := if 0xffff ≤ length then bytesOf length 4 else []

mutual

/-- Every name and string of no bytes is followed by a zero, `next` being what follows the tag;
and there is memory for every array and string. -/
def Followed : Tag → List UInt8 → Prop
  | .none name, next => Kept name next
  | .array name data, next =>
    data.length ≤ arrayMaxLength ∧
      Kept name (extraLength data.length ++ saveBinaryTags data ++ next) ∧ FollowedAll data next
  | .string name text, next =>
    text.length ≤ stringMaxLength ∧
      Kept name (extraLength text.length ++ text ++ next) ∧ Kept text next
  | .int name value, next =>
    Kept name (bytesOf (magnitude value) (byteLength (magnitude value)) ++ next)

def FollowedAll : List Tag → List UInt8 → Prop
  | [], _ => True
  | tag :: data, next => Followed tag (saveBinaryTags data ++ next) ∧ FollowedAll data next

end

mutual

/-- The tree of tags in memory. -/
def Node.tag : Node → Option Tag
  | .null => none
  | .plain _ _ name type => if type = 0 then some (.none name) else none
  | .array _ _ name data => (nodeTags data).map (.array name)
  | .string _ _ name text => text.map (.string name)
  | .int _ _ name value => some (.int name value)

def nodeTags : List Node → Option (List Tag)
  | [] => some []
  | node :: nodes => node.tag.bind fun tag => (nodeTags nodes).map fun tags => tag :: tags

end

mutual

/-- The tags have the right parents. -/
def Node.Linked (parent : Option ℕ) : Node → Prop
  | .null => False
  | .plain _ p _ _ => p = parent
  | .array id p _ data => p = parent ∧ nodesLinked id data
  | .string _ p _ _ => p = parent
  | .int _ p _ _ => p = parent

def nodesLinked (id : ℕ) : List Node → Prop
  | [] => True
  | node :: nodes => node.Linked (some id) ∧ nodesLinked id nodes

end

/-! ### Reading back -/

section

variable {depth id length limit : ℕ} {type : UInt8} {name rest : List UInt8}

lemma saveHeader_eq (type : UInt8) (name : List UInt8) (length : ℕ) :
    saveHeader type name length = type :: UInt8.ofNat name.length ::
      (bytesOf (if length < 0xffff then length else 0xffff) 2 ++ name ++ extraLength length) := by
  simp [saveHeader, extraLength]

lemma parseBinaryTag_header (hname : name.length ≤ 255) (hlength : length < 2 ^ 32) :
    parseBinaryTag (depth + 1) (saveHeader type name length ++ rest)
      ((saveHeader type name length).length + limit) id =
    match smmAlloc (name ++ (extraLength length ++ rest)) name.length with
    | .ok got => parseBinaryContent (parseBinaryTag depth) type id got length rest limit
    | .fault => .fault
    | .spin => .spin
    | .panic => .panic := by
  obtain ⟨low, high, hbytes, hvalue⟩ :=
    bytesOf_two (if length < 0xffff then length else 0xffff) (by split_ifs <;> omega)
  have hshort : (low.toNat + 2 ^ 8 * high.toNat = 0xffff) ↔ 0xffff ≤ length := by
    rw [hvalue]
    split_ifs <;> omega
  have hn : (UInt8.ofNat name.length).toNat = name.length := by
    rw [toNat_ofNat_byte]
    omega
  have hextra : (extraLength length).length
      = if low.toNat + 2 ^ 8 * high.toNat = 0xffff then 4 else 0 := by
    unfold extraLength
    by_cases hl : 0xffff ≤ length
    · rw [if_pos hl, if_pos (hshort.mpr hl), length_bytesOf]
    · rw [if_neg hl, if_neg (fun h => hl (hshort.mp h)), List.length_nil]
  have hword : (if low.toNat + 2 ^ 8 * high.toNat = 0xffff then
      readWord (extraLength length ++ rest)
      else some (low.toNat + 2 ^ 8 * high.toNat, extraLength length ++ rest))
        = some (length, rest) := by
    unfold extraLength
    by_cases hl : 0xffff ≤ length
    · rw [if_pos (hshort.mpr hl), if_pos hl, readWord_bytesOf hlength]
    · rw [if_neg (fun h => hl (hshort.mp h)), if_neg hl, hvalue, if_pos (by omega), List.nil_append]
  rw [saveHeader_eq, hbytes]
  simp only [List.cons_append, List.nil_append, List.length_cons, List.length_append,
    parseBinaryTag, hn, List.append_assoc, List.drop_left, hword]
  rw [if_neg (by omega), if_neg (by omega)]
  cases smmAlloc (name ++ (extraLength length ++ rest)) name.length with
  | ok got =>
    simp only
    congr 1
    omega
  | fault => rfl
  | spin => rfl
  | panic => rfl

lemma le_stringMaxLength (hname : name.length ≤ 255) : name.length ≤ stringMaxLength :=
  hname.trans (by decide)

lemma parseBinaryTag_kept (hname : name.length ≤ 255) (hlength : length < 2 ^ 32)
    (hkept : Kept name (extraLength length ++ rest)) :
    parseBinaryTag (depth + 1) (saveHeader type name length ++ rest)
      ((saveHeader type name length).length + limit) id
      = parseBinaryContent (parseBinaryTag depth) type id name length rest limit := by
  rw [parseBinaryTag_header hname hlength, smmAlloc_kept hkept (le_stringMaxLength hname)]

lemma parseBinaryTag_ok {node : Node} {data : List UInt8} {limit' next : ℕ}
    {allocated : List Object}
    (hname : name.length ≤ 255) (hlength : length < 2 ^ 32)
    (h : parseBinaryTag (depth + 1) (saveHeader type name length ++ rest)
      ((saveHeader type name length).length + limit) id = .ok node data limit' next allocated) :
    ∃ got, (got = name → Kept name (extraLength length ++ rest)) ∧
      parseBinaryContent (parseBinaryTag depth) type id got length rest limit
        = .ok node data limit' next allocated := by
  rw [parseBinaryTag_header hname hlength] at h
  cases hsmm : smmAlloc (name ++ (extraLength length ++ rest)) name.length with
  | ok got =>
    rw [hsmm] at h
    refine ⟨got, fun hgot => ?_, h⟩
    subst hgot
    exact (kept_of_smmAlloc (hname.trans_lt (by norm_num)) hsmm).1
  | fault =>
    rw [hsmm] at h
    cases h
  | spin =>
    rw [hsmm] at h
    cases h
  | panic =>
    rw [hsmm] at h
    cases h

/-- The tag comes back, with all of its bytes consumed, if and only if `good` holds; and if
another one comes back, the same bytes are consumed. -/
structure Back (r : Parsed Node) (tag : Tag) (after : List UInt8) (limit : ℕ) (good : Prop) :
    Prop where
  stays : ∀ node data limit' next allocated, r = .ok node data limit' next allocated →
    data = after ∧ limit' = limit ∧ (node.tag = some tag → good)
  comes : good → ∃ node next allocated, r = .ok node after limit next allocated ∧
    node.tag = some tag ∧ node.Linked none

/-- The same for the tags of the array with the number `id`. -/
structure BackAll (r : Parsed (List Node)) (id : ℕ) (tags : List Tag) (after : List UInt8)
    (limit : ℕ) (good : Prop) : Prop where
  stays : ∀ nodes data limit' next allocated, r = .ok nodes data limit' next allocated →
    data = after ∧ limit' = limit ∧ (nodeTags nodes = some tags → good)
  comes : good → ∃ nodes next allocated, r = .ok nodes after limit next allocated ∧
    nodeTags nodes = some tags ∧ nodesLinked id nodes

lemma back_none (hname : name.length ≤ 255) :
    Back (parseBinaryTag (depth + 1) (saveHeader 0 name 0 ++ rest)
      ((saveHeader 0 name 0).length + limit) id) (.none name) rest limit (Kept name rest) where
  stays := fun node data limit' next allocated h => by
    obtain ⟨got, hsmm, h⟩ := parseBinaryTag_ok hname (by norm_num) h
    simp only [parseBinaryContent] at h
    obtain ⟨rfl, rfl, rfl, -, -⟩ := Parsed.ok.inj h
    refine ⟨rfl, rfl, fun htag => ?_⟩
    exact hsmm (by simpa [Node.tag] using htag)
  comes := fun hkept => by
    have hkept' : Kept name (extraLength 0 ++ rest) := hkept
    rw [parseBinaryTag_kept hname (by norm_num) hkept']
    exact ⟨_, _, _, rfl, rfl, rfl⟩

lemma back_int (hname : name.length ≤ 255) (value : BitVec 64) :
    Back (parseBinaryTag (depth + 1) (saveBinaryTag (.int name value) ++ rest)
      ((saveBinaryTag (.int name value)).length + limit) id) (.int name value) rest limit
      (Followed (.int name value) rest) := by
  have hle := byteLength_le (magnitude value) (BitVec.isLt _)
  have hextra : extraLength (byteLength (magnitude value)) = [] := if_neg (by omega)
  have hcontent : ∀ got, parseBinaryContent (parseBinaryTag depth) (if value.slt 0 then 4 else 3) id
      got (byteLength (magnitude value))
      (bytesOf (magnitude value) (byteLength (magnitude value)) ++ rest)
      (byteLength (magnitude value) + limit)
      = .ok (.int id none got value) rest limit (id + 1) [(id, .tag), (id, .name)] := by
    intro got
    have hvalue := readInt_magnitude value
    have htake : (bytesOf (magnitude value) (byteLength (magnitude value)) ++ rest).take
        (byteLength (magnitude value)) = bytesOf (magnitude value) (byteLength (magnitude value)) :=
      List.take_left' (length_bytesOf _ _)
    have hdrop : (bytesOf (magnitude value) (byteLength (magnitude value)) ++ rest).drop
        (byteLength (magnitude value)) = rest := List.drop_left' (length_bytesOf _ _)
    have hlimit : ¬ byteLength (magnitude value) + limit < byteLength (magnitude value) := by omega
    unfold parseBinaryContent
    cases hneg : value.slt 0 with
    | true =>
      rw [hneg, if_pos rfl] at hvalue
      simp only [if_true, hlimit, if_false, htake, hdrop, hvalue, Nat.add_sub_cancel_left]
      rfl
    | false =>
      rw [hneg, if_neg (by decide)] at hvalue
      simp only [Bool.false_eq_true, if_false, hlimit, htake, hdrop, hvalue,
        Nat.add_sub_cancel_left]
      rfl
  have hlen : (saveBinaryTag (.int name value)).length + limit
      = (saveHeader (if value.slt 0 then 4 else 3) name (byteLength (magnitude value))).length
        + (byteLength (magnitude value) + limit) := by
    rw [saveBinaryTag, List.length_append, length_bytesOf, add_assoc]
  rw [hlen, saveBinaryTag, List.append_assoc]
  refine ⟨fun node data limit' next allocated h => ?_, fun hkept => ?_⟩
  · obtain ⟨got, hsmm, h⟩ := parseBinaryTag_ok hname (by omega) h
    rw [hcontent] at h
    obtain ⟨rfl, rfl, rfl, -, -⟩ := Parsed.ok.inj h
    refine ⟨rfl, rfl, fun htag => ?_⟩
    have hkept := hsmm (by simpa [Node.tag] using htag)
    rwa [hextra] at hkept
  · rw [parseBinaryTag_kept hname (by omega) (by rw [hextra]; exact hkept), hcontent]
    exact ⟨_, _, _, rfl, rfl, rfl⟩

lemma back_string {text : List UInt8} (hname : name.length ≤ 255) (htext : text.length < 2 ^ 32) :
    Back (parseBinaryTag (depth + 1) (saveBinaryTag (.string name text) ++ rest)
      ((saveBinaryTag (.string name text)).length + limit) id) (.string name text) rest limit
      (Followed (.string name text) rest) := by
  have hlen : (saveBinaryTag (.string name text)).length + limit
      = (saveHeader 2 name text.length).length + (text.length + limit) := by
    rw [saveBinaryTag, List.length_append, add_assoc]
  rw [hlen, saveBinaryTag, List.append_assoc]
  have hcontent : ∀ got, parseBinaryContent (parseBinaryTag depth) 2 id got text.length
      (text ++ rest) (text.length + limit) =
      match smmAlloc (text ++ rest) text.length with
      | .ok string => .ok (.string id none got (some string)) rest limit (id + 1)
          [(id, .tag), (id, .name), (id, .string)]
      | .fault => .fault
      | .spin => .spin
      | .panic => .panic := by
    intro got
    have hlimit : ¬ text.length + limit < text.length := by omega
    unfold parseBinaryContent
    simp only [hlimit, if_false, List.drop_left, Nat.add_sub_cancel_left]
    rfl
  refine ⟨fun node data limit' next allocated h => ?_, fun hgood => ?_⟩
  · obtain ⟨got, hsmm, h⟩ := parseBinaryTag_ok hname htext h
    rw [hcontent] at h
    cases hstring : smmAlloc (text ++ rest) text.length with
    | ok string =>
      rw [hstring] at h
      obtain ⟨rfl, rfl, rfl, -, -⟩ := Parsed.ok.inj h
      refine ⟨rfl, rfl, fun htag => ?_⟩
      obtain ⟨rfl, rfl⟩ : got = name ∧ string = text := by simpa [Node.tag] using htag
      have hname' := hsmm rfl
      rw [← List.append_assoc] at hname'
      have htext' := kept_of_smmAlloc htext hstring
      exact ⟨htext'.2, hname', htext'.1⟩
    | fault =>
      rw [hstring] at h
      cases h
    | spin =>
      rw [hstring] at h
      cases h
    | panic =>
      rw [hstring] at h
      cases h
  · have hname' : Kept name (extraLength text.length ++ (text ++ rest)) := by
      rw [← List.append_assoc]
      exact hgood.2.1
    rw [parseBinaryTag_kept hname htext hname', hcontent, smmAlloc_kept hgood.2.2 hgood.1]
    exact ⟨_, _, _, rfl, rfl, rfl⟩

lemma back_array {data : List Tag} (hname : name.length ≤ 255) (hlength : data.length < 2 ^ 32)
    (h : BackAll (parseBinaryTags (parseBinaryTag depth) id data.length
      (saveBinaryTags data ++ rest) ((saveBinaryTags data).length + limit) (id + 1)) id data rest
      limit (FollowedAll data rest)) :
    Back (parseBinaryTag (depth + 1) (saveBinaryTag (.array name data) ++ rest)
      ((saveBinaryTag (.array name data)).length + limit) id) (.array name data) rest limit
      (Followed (.array name data) rest) := by
  have hlen : (saveBinaryTag (.array name data)).length + limit
      = (saveHeader 1 name data.length).length + ((saveBinaryTags data).length + limit) := by
    rw [saveBinaryTag, List.length_append, add_assoc]
  rw [hlen, saveBinaryTag, List.append_assoc]
  refine ⟨fun node rest' limit' next allocated hok => ?_, fun hgood => ?_⟩
  · obtain ⟨got, hsmm, hok⟩ := parseBinaryTag_ok hname hlength hok
    simp only [parseBinaryContent, if_true] at hok
    split_ifs at hok with hfits hcut
    cases htags : parseBinaryTags (parseBinaryTag depth) id data.length
      (saveBinaryTags data ++ rest)
        ((saveBinaryTags data).length + limit) (id + 1) with
    | ok nodes rest₁ limit₁ next₁ allocated₁ =>
      rw [htags] at hok
      obtain ⟨rfl, rfl, rfl, -, -⟩ := Parsed.ok.inj hok
      obtain ⟨hrest, hlimit, hall⟩ := h.stays _ _ _ _ _ htags
      refine ⟨hrest, hlimit, fun htag => ?_⟩
      rw [Node.tag, Option.map_eq_some_iff] at htag
      obtain ⟨tags, htags', heq⟩ := htag
      obtain ⟨rfl, rfl⟩ := Tag.array.inj heq
      have hkept := hsmm rfl
      rw [← List.append_assoc] at hkept
      exact ⟨fits_array_iff.mp ⟨hfits, Nat.lt_of_not_le hcut⟩, hkept, hall htags'⟩
    | null slot allocated₁ freed =>
      rw [htags] at hok
      cases hok
    | fault =>
      rw [htags] at hok
      cases hok
    | spin =>
      rw [htags] at hok
      cases hok
    | panic =>
      rw [htags] at hok
      cases hok
    | deep =>
      rw [htags] at hok
      cases hok
  · obtain ⟨hsize, hkept, hall⟩ := hgood
    obtain ⟨nodes, next, allocated, htags, htag, hlinked⟩ := h.comes hall
    rw [List.append_assoc] at hkept
    rw [parseBinaryTag_kept hname hlength hkept]
    simp only [parseBinaryContent, if_true]
    obtain ⟨hfits, hcut⟩ := fits_array_iff.mpr hsize
    rw [if_neg (not_not_intro hfits), if_neg (Nat.not_le_of_lt hcut), htags]
    refine ⟨_, _, _, rfl, ?_, rfl, hlinked⟩
    rw [Node.tag, htag]
    rfl

lemma setParent_tag (node : Node) (id : ℕ) : (node.setParent id).tag = node.tag := by
  cases node <;> simp [Node.setParent, Node.tag]

lemma Node.Linked.setParent {node : Node} (h : node.Linked none) (id : ℕ) :
    (node.setParent id).Linked (some id) := by
  cases node with
  | null => exact h
  | plain => rfl
  | array => exact ⟨rfl, h.2⟩
  | string => rfl
  | int => rfl

lemma backAll_cons {tag : Tag} {data : List Tag} {next : ℕ}
    (h : Back (parseBinaryTag depth (saveBinaryTag tag ++ (saveBinaryTags data ++ rest))
      ((saveBinaryTag tag).length + ((saveBinaryTags data).length + limit)) next) tag
      (saveBinaryTags data ++ rest) ((saveBinaryTags data).length + limit)
      (Followed tag (saveBinaryTags data ++ rest)))
    (hall : ∀ next, BackAll (parseBinaryTags (parseBinaryTag depth) id data.length
      (saveBinaryTags data ++ rest) ((saveBinaryTags data).length + limit) next) id data rest limit
      (FollowedAll data rest)) :
    BackAll (parseBinaryTags (parseBinaryTag depth) id (tag :: data).length
      (saveBinaryTags (tag :: data) ++ rest)
      ((saveBinaryTags (tag :: data)).length + limit) next) id
      (tag :: data) rest limit (FollowedAll (tag :: data) rest) := by
  rw [saveBinaryTags, List.length_append, List.append_assoc, add_assoc, List.length_cons]
  refine ⟨fun nodes rest' limit' next' allocated hok => ?_, fun hgood => ?_⟩
  · obtain ⟨node, data₁, limit₁, next₁, allocated₁, nodes₂, allocated₂, htag, htags, rfl, -⟩ :=
      parseBinaryTags_ok hok
    obtain ⟨rfl, rfl, hfirst⟩ := h.stays _ _ _ _ _ htag
    obtain ⟨rfl, rfl, hothers⟩ := (hall next₁).stays _ _ _ _ _ htags
    refine ⟨rfl, rfl, fun hnodes => ?_⟩
    rw [nodeTags, Option.bind_eq_some_iff] at hnodes
    obtain ⟨tag', hnode, hnodes⟩ := hnodes
    rw [Option.map_eq_some_iff] at hnodes
    obtain ⟨data', hnodes, heq⟩ := hnodes
    obtain ⟨rfl, rfl⟩ := List.cons.inj heq
    rw [setParent_tag] at hnode
    exact ⟨hfirst hnode, hothers hnodes⟩
  · rw [parseBinaryTags]
    obtain ⟨node, next₁, allocated₁, htag, hnode, hlinked⟩ := h.comes hgood.1
    obtain ⟨nodes, next₂, allocated₂, htags, hnodes, hlinks⟩ := (hall next₁).comes hgood.2
    rw [htag]
    simp only
    rw [htags]
    refine ⟨_, _, _, rfl, ?_, hlinked.setParent id, hlinks⟩
    rw [nodeTags, setParent_tag, hnode, hnodes]
    rfl

end

lemma four_le_length_saveHeader (type : UInt8) (name : List UInt8) (length : ℕ) :
    4 ≤ (saveHeader type name length).length := by
  rw [saveHeader_eq]
  simp only [List.length_cons, List.length_append, length_bytesOf]
  omega

lemma four_le_length (tag : Tag) : 4 ≤ (saveBinaryTag tag).length := by
  cases tag with
  | none => exact four_le_length_saveHeader _ _ _
  | array name data =>
    rw [saveBinaryTag, List.length_append]
    exact (four_le_length_saveHeader _ _ _).trans (Nat.le_add_right _ _)
  | string name text =>
    rw [saveBinaryTag, List.length_append]
    exact (four_le_length_saveHeader _ _ _).trans (Nat.le_add_right _ _)
  | int name value =>
    rw [saveBinaryTag, List.length_append]
    exact (four_le_length_saveHeader _ _ _).trans (Nat.le_add_right _ _)

mutual

/-- A tag and the bytes that are written for it. -/
theorem backTag : ∀ (tag : Tag) (depth : ℕ) (rest : List UInt8) (limit id : ℕ), Storable tag →
    (saveBinaryTag tag).length ≤ depth →
    Back (parseBinaryTag depth (saveBinaryTag tag ++ rest) ((saveBinaryTag tag).length + limit) id)
      tag rest limit (Followed tag rest)
  | tag, 0, _, _, _, _, hdepth => by
    have := four_le_length tag
    omega
  | .none name, depth + 1, rest, limit, id, h, _ => back_none h
  | .array name data, depth + 1, rest, limit, id, h, hdepth => by
    refine back_array h.1 h.2.1 (backTags data depth rest limit id (id + 1) h.2.2 ?_)
    have := four_le_length_saveHeader 1 name data.length
    rw [saveBinaryTag, List.length_append] at hdepth
    omega
  | .string name text, depth + 1, rest, limit, id, h, _ => back_string h.1 h.2
  | .int name value, depth + 1, rest, limit, id, h, _ => back_int h value

theorem backTags : ∀ (data : List Tag) (depth : ℕ) (rest : List UInt8) (limit id next : ℕ),
    Storables data → (saveBinaryTags data).length ≤ depth →
    BackAll (parseBinaryTags (parseBinaryTag depth) id data.length (saveBinaryTags data ++ rest)
      ((saveBinaryTags data).length + limit) next) id data rest limit (FollowedAll data rest)
  | [], depth, rest, limit, id, next, _, _ => by
    refine ⟨fun nodes data limit' next' allocated hok => ?_, fun _ => ?_⟩
    · obtain ⟨rfl, rfl, rfl, -, -⟩ := Parsed.ok.inj hok
      exact ⟨rfl, by simp [saveBinaryTags], fun _ => trivial⟩
    · refine ⟨[], next, [], ?_, rfl, trivial⟩
      simp [saveBinaryTags, parseBinaryTags]
  | tag :: data, depth, rest, limit, id, next, h, hdepth => by
    rw [saveBinaryTags, List.length_append] at hdepth
    exact backAll_cons (backTag tag depth _ _ next h.1 (by omega))
      fun next => backTags data depth rest limit id next h.2 (by omega)

end

/-- **The round trip in binary** gives the tag back, with its parents and all of its bytes read,
if and only if every name and string of no bytes is followed by a zero and there is memory for every
array and string. -/
theorem binary_roundTrip_iff (tag : Tag) (h : Storable tag) (after : List UInt8) (depth : ℕ)
    (hdepth : (saveBinaryTag tag).length ≤ depth) :
    (∃ node next allocated, parseBinaryTag depth (saveBinaryTag tag ++ after)
      (saveBinaryTag tag).length 0 = .ok node after 0 next allocated ∧
      node.tag = some tag ∧ node.Linked none) ↔ Followed tag after := by
  have hback := backTag tag depth after 0 0 h hdepth
  rw [Nat.add_zero] at hback
  refine ⟨?_, hback.comes⟩
  rintro ⟨node, next, allocated, hok, htag, -⟩
  exact (hback.stays _ _ _ _ _ hok).2.2 htag

/-- A string of two bytes, and a tag without a name that a zero follows. -/
theorem binary_roundTrip_string : ∃ node next allocated,
    parseBinaryTag 100 (saveBinaryTag (.array [97] [.string [98] [5, 6], .none []]) ++ [0])
      (saveBinaryTag (.array [97] [.string [98] [5, 6], .none []])).length 0
        = .ok node [0] 0 next allocated ∧
      node.tag = some (.array [97] [.string [98] [5, 6], .none []]) ∧ node.Linked none := by
  refine (binary_roundTrip_iff _ ?_ _ _ (by decide)).mpr ?_
  · exact ⟨by decide, by decide, ⟨by decide, by decide⟩, (by decide : 0 ≤ 255), trivial⟩
  · exact ⟨by decide, .inl (by simp), ⟨by decide, .inl (by simp), .inl (by simp)⟩, .inr rfl,
      trivial⟩

/-- An integer without a name: its name comes back as its bytes. -/
theorem not_binary_roundTrip_unnamed : ¬ ∃ node next allocated,
    parseBinaryTag 100 (saveBinaryTag (.int [] 7) ++ [0]) (saveBinaryTag (.int [] 7)).length 0
        = .ok node [0] 0 next allocated ∧
      node.tag = some (.int [] 7) ∧ node.Linked none := by
  rintro ⟨node, next, allocated, hok, htag, -⟩
  have hback := backTag (.int [] 7) 100 [0] 0 0 (Nat.zero_le _) (by decide)
  have hkept := (hback.stays _ _ _ _ _ hok).2.2 htag
  rcases hkept with h | h
  · exact h rfl
  · revert h
    decide

end KernelModel.Config
