import KernelModel.ConfigTags

/-!
Configurations in binary.

The parser is given a pointer and the end of the data; what it can read is the list of the bytes
from the pointer on, of which the first `limit` are before the end. Tags in memory are numbered
in the order of their allocation. With a result comes what was allocated and freed: a tag, and
the name, the array and the string of a tag.
-/

namespace KernelModel.Config

/-! ### Tags in memory -/

/-- A tag in memory, with its number and that of its parent. -/
inductive Node
  /-- No tag: the pointer is NULL. -/
  | null
  /-- A tag with nothing but its name, of some type. -/
  | plain (id : ℕ) (parent : Option ℕ) (name : List UInt8) (type : UInt8)
  | array (id : ℕ) (parent : Option ℕ) (name : List UInt8) (data : List Node)
  /-- The string is missing if the pointer to it is NULL. -/
  | string (id : ℕ) (parent : Option ℕ) (name : List UInt8) (text : Option (List UInt8))
  | int (id : ℕ) (parent : Option ℕ) (name : List UInt8) (value : BitVec 64)
  deriving Repr

def Node.setParent (parent : ℕ) : Node → Node
  | .null => .null
  | .plain id _ name type => .plain id (some parent) name type
  | .array id _ name data => .array id (some parent) name data
  | .string id _ name text => .string id (some parent) name text
  | .int id _ name value => .int id (some parent) name value

/-- A deleted tag, as it is found through a pointer to it: its array has been cleared. -/
def Node.deleted : Node → Node
  | .array id parent name _ => .array id parent name []
  | node => node

/-- What is allocated for a tag. -/
inductive Part
  | tag | name | array | string
  deriving DecidableEq, Repr

/-- An allocation: a part of the tag with this number. -/
abbrev Object := ℕ × Part

mutual

/-- `config_tag_delete`: what it frees, in order. -/
def configTagDelete : Node → List Object
  | .null => []
  | .plain id _ _ _ => [(id, .name), (id, .tag)]
  | .array id _ _ data => configTagsDelete data ++ [(id, .array), (id, .name), (id, .tag)]
  | .string id _ _ text =>
    (if text.isSome then [(id, .string)] else []) ++ [(id, .name), (id, .tag)]
  | .int id _ _ _ => [(id, .name), (id, .tag)]

def configTagsDelete : List Node → List Object
  | [] => []
  | node :: nodes => configTagDelete node ++ configTagsDelete nodes

end

/-! ### The parser -/

/-- What the parser ends with. -/
inductive Parsed (α : Type)
  /-- The data after the tag, the number of the next tag, and what was allocated. -/
  | ok (result : α) (data : List UInt8) (limit next : ℕ) (allocated : List Object)
  /-- NULL is returned; `slot` is what the pointer to the tag was set to. -/
  | null (slot : α) (allocated freed : List Object)
  /-- It reads or writes where it may not. -/
  | fault
  | spin
  /-- The allocator panics. -/
  | panic
  /-- The depth given to the model is not enough. -/
  | deep
  deriving Repr

/-- The number of a 32-bit word, the low byte first, and the data after it. -/
def readWord : List UInt8 → Option (ℕ × List UInt8)
  | a :: b :: c :: d :: data =>
    some (a.toNat + 2 ^ 8 * b.toNat + 2 ^ 16 * c.toNat + 2 ^ 24 * d.toNat, data)
  | _ => none

/-- The loop over the bytes of an integer, from the byte `i` on. -/
def readInt (value : BitVec 64) (i : ℕ) : List UInt8 → BitVec 64
  | [] => value
  | c :: data => readInt (value ||| (BitVec.ofNat 64 c.toNat <<< (8 * i % 64))) (i + 1) data

/-- A tag of the array with the number `id`, and what comes of those after it. -/
def consTag (tag : Node) (id : ℕ) (allocated : List Object) :
    Parsed (List Node) → Parsed (List Node)
  | .ok tags data limit next allocated' =>
    .ok (tag.setParent id :: tags) data limit next (allocated ++ allocated')
  | .null tags allocated' freed => .null (tag.setParent id :: tags) (allocated ++ allocated') freed
  | .fault => .fault
  | .spin => .spin
  | .panic => .panic
  | .deep => .deep

/-- The loop over the tags of the array with the number `id`. -/
def parseBinaryTags (parse : List UInt8 → ℕ → ℕ → Parsed Node) (id : ℕ) :
    ℕ → List UInt8 → ℕ → ℕ → Parsed (List Node)
  | 0, data, limit, next => .ok [] data limit next []
  | count + 1, data, limit, next =>
    match parse data limit next with
    | .ok tag data limit next allocated =>
      consTag tag id allocated (parseBinaryTags parse id count data limit next)
    | .null slot allocated freed => .null (slot :: List.replicate count .null) allocated freed
    | .fault => .fault
    | .spin => .spin
    | .panic => .panic
    | .deep => .deep

lemma parseBinaryTags_ok {parse : List UInt8 → ℕ → ℕ → Parsed Node} {id count limit next : ℕ}
    {data data' : List UInt8} {limit' next' : ℕ} {nodes : List Node} {allocated : List Object}
    (h : parseBinaryTags parse id (count + 1) data limit next
      = .ok nodes data' limit' next' allocated) :
    ∃ node data₁ limit₁ next₁ allocated₁ nodes₂ allocated₂,
      parse data limit next = .ok node data₁ limit₁ next₁ allocated₁ ∧
      parseBinaryTags parse id count data₁ limit₁ next₁ = .ok nodes₂ data' limit' next' allocated₂ ∧
      nodes = node.setParent id :: nodes₂ ∧ allocated = allocated₁ ++ allocated₂ := by
  rw [parseBinaryTags] at h
  cases hparse : parse data limit next with
  | ok node data₁ limit₁ next₁ allocated₁ =>
    rw [hparse] at h
    simp only at h
    cases htags : parseBinaryTags parse id count data₁ limit₁ next₁ with
    | ok nodes₂ data₂ limit₂ next₂ allocated₂ =>
      rw [htags] at h
      obtain ⟨rfl, rfl, rfl, rfl, rfl⟩ := Parsed.ok.inj h
      exact ⟨node, data₁, limit₁, next₁, allocated₁, nodes₂, allocated₂, rfl, htags, rfl, rfl⟩
    | _ =>
      rw [htags] at h
      cases h
  | _ =>
    rw [hparse] at h
    cases h

/-- A tag that is deleted because of an error. -/
def failWith (tag : Node) (allocated freed : List Object) : Parsed Node :=
  .null tag.deleted allocated (freed ++ configTagDelete tag)

/-- An array, with what came of its tags. -/
def arrayTag (id : ℕ) (name : List UInt8) : Parsed (List Node) → Parsed Node
  | .ok tags data limit next allocated =>
    .ok (.array id none name tags) data limit next
      ([(id, .tag), (id, .name), (id, .array)] ++ allocated)
  | .null tags allocated freed =>
    failWith (.array id none name tags) ([(id, .tag), (id, .name), (id, .array)] ++ allocated) freed
  | .fault => .fault
  | .spin => .spin
  | .panic => .panic
  | .deep => .deep

/-- The content of a tag of a type, after its name and the length of the content. -/
def parseBinaryContent (parse : List UInt8 → ℕ → ℕ → Parsed Node) (type : UInt8) (id : ℕ)
    (name : List UInt8) (length : ℕ) (data : List UInt8) (limit : ℕ) : Parsed Node :=
  let allocated := [(id, .tag), (id, .name)]
  if type = 1 then
    -- the size of the array is cut to 32 bits, but all of it is cleared
    if ¬Amm.Fits ((8 + 8 * length) % 2 ^ 32) then .panic
    else if 2 ^ 32 ≤ 8 + 8 * length then .fault
    else arrayTag id name (parseBinaryTags parse id length data limit (id + 1))
  else if type = 2 then
    if limit < length then failWith (.string id none name none) allocated []
    else
      match smmAlloc data length with
      | .ok string =>
        .ok (.string id none name (some string)) (data.drop length) (limit - length) (id + 1)
          (allocated ++ [(id, .string)])
      | .fault => .fault
      | .spin => .spin
      | .panic => .panic
  else if type = 3 ∨ type = 4 then
    if limit < length then failWith (.plain id none name type) allocated []
    else
      let value := readInt 0 0 (data.take length)
      .ok (.int id none name (if type = 4 then -value else value)) (data.drop length)
        (limit - length) (id + 1) allocated
  else .ok (.plain id none name type) data limit (id + 1) allocated

/-- `_parse_binary_tag`, in tags nested at most so deep. -/
def parseBinaryTag : ℕ → List UInt8 → ℕ → ℕ → Parsed Node
  | 0, _, _, _ => .deep
  | depth + 1, data, limit, id =>
    if limit < 4 then .null .null [] []
    else
      match data with
      | type :: nameLength :: low :: high :: data =>
        let length := low.toNat + 2 ^ 8 * high.toNat
        let extra := if length = 0xffff then 4 else 0
        if limit - 4 < nameLength.toNat + extra then .null .null [] []
        else
          match smmAlloc data nameLength.toNat with
          | .fault => .fault
          | .spin => .spin
          | .panic => .panic
          | .ok name =>
            let data := data.drop nameLength.toNat
            match (if length = 0xffff then readWord data else some (length, data)) with
            | none => .fault
            | some (length, data) =>
              parseBinaryContent (parseBinaryTag depth) type id name length data
                (limit - 4 - nameLength.toNat - extra)
      | _ => .fault

/-- The tags of the longest array that there is memory for. -/
def arrayMaxLength : ℕ := 2 ^ 24 - 2

lemma fits_array_iff {length : ℕ} :
    Amm.Fits ((8 + 8 * length) % 2 ^ 32) ∧ 8 + 8 * length < 2 ^ 32 ↔ length ≤ arrayMaxLength := by
  rw [Amm.Fits, Amm.headerSize, arrayMaxLength]
  omega

/-! ### The printer -/

/-- The number of bytes of an integer without its sign. -/
def byteLength (value : ℕ) : ℕ := if value = 0 then 0 else (value.log2 + 1 + 7) / 8

/-- The low bytes of a number. -/
def bytesOf (value : ℕ) : ℕ → List UInt8
  | 0 => []
  | n + 1 => UInt8.ofNat value :: bytesOf (value / 2 ^ 8) n

/-- An integer without its sign. -/
def magnitude (value : BitVec 64) : ℕ := (if value.slt 0 then -value else value).toNat

/-- The header of a tag, its name and the length that does not fit in the header. -/
def saveHeader (type : UInt8) (name : List UInt8) (length : ℕ) : List UInt8 :=
  [type, UInt8.ofNat name.length] ++
    bytesOf (if length < 0xffff then length else 0xffff) 2 ++ name ++
    (if 0xffff ≤ length then bytesOf length 4 else [])

mutual

/-- `_save_binary_tag` -/
def saveBinaryTag : Tag → List UInt8
  | .none name => saveHeader 0 name 0
  | .array name data => saveHeader 1 name data.length ++ saveBinaryTags data
  | .string name string => saveHeader 2 name string.length ++ string
  | .int name value =>
    saveHeader (if value.slt 0 then 4 else 3) name (byteLength (magnitude value)) ++
      bytesOf (magnitude value) (byteLength (magnitude value))

def saveBinaryTags : List Tag → List UInt8
  | [] => []
  | tag :: data => saveBinaryTag tag ++ saveBinaryTags data

end

end KernelModel.Config
