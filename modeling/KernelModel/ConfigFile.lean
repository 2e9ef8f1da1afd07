import KernelModel.AesInverse
import KernelModel.ConfigBinaryRound
import KernelModel.Pbkdf2
import KernelModel.Writer

/-!
Configuration files with a password.

The tags are first written to memory and padded, and then encrypted with a key and a vector that
come from the password and a random salt. A file starts with a header, and its size is written
when all the rest is in the file.
-/

namespace KernelModel.Config

open Writers

/-- `config_file_header_t` -/
def headerBytes (flags : UInt8) (size : ℕ) : List UInt8 :=
  bytesOf 0x80474643 4 ++ [1, flags] ++ bytesOf size 4

/-- `ABCDEFGHIJKLMNO` -/
def paddingBytes : List UInt8 := [65, 66, 67, 68, 69, 70, 71, 72, 73, 74, 75, 76, 77, 78, 79]

/-- What memory holds that was not written, and what `random_generate` gives. -/
structure Surroundings where
  heap : ℕ → UInt8
  region : ℕ → UInt8
  memoryRegion : ℕ → UInt8
  stack : ℕ → UInt8
  keyMemory : ℕ → UInt8

/-! ### Writing -/

/-- What `_save_binary_tag` does first. -/
def appendHeader (heap : ℕ → UInt8) (w : Writer) (type : UInt8) (name : List UInt8) (length : ℕ) :
    Option Writer := do
  let w ← writerAppend heap w
    ([type, UInt8.ofNat name.length] ++ bytesOf (if length < 0xffff then length else 0xffff) 2)
  let w ← writerAppend heap w name
  if 0xffff ≤ length then writerAppend heap w (bytesOf length 4) else some w

/-- `writer_append_u8` for each byte. -/
def appendEach (heap : ℕ → UInt8) (w : Writer) : List UInt8 → Option Writer
  | [] => some w
  | c :: data => (writerAppend heap w [c]).bind fun w => appendEach heap w data

mutual

/-- `_save_binary_tag` -/
def appendTag (heap : ℕ → UInt8) (w : Writer) : Tag → Option Writer
  | .none name => appendHeader heap w 0 name 0
  | .array name data =>
    (appendHeader heap w 1 name data.length).bind fun w => appendTags heap w data
  | .string name text =>
    (appendHeader heap w 2 name text.length).bind fun w => writerAppend heap w text
  | .int name value =>
    (appendHeader heap w (if value.slt 0 then 4 else 3) name (byteLength (magnitude value))).bind
      fun w => appendEach heap w (bytesOf (magnitude value) (byteLength (magnitude value)))

def appendTags (heap : ℕ → UInt8) (w : Writer) : List Tag → Option Writer
  | [] => some w
  | tag :: data => (appendTag heap w tag).bind fun w => appendTags heap w data

end

/-- `pbkdf2_compute` for `aes_key_and_iv`. -/
def keyAndIv (e : Surroundings) (password salt : List UInt8) : Option (List UInt8) :=
  Pbkdf2.pbkdf2Compute (Pbkdf2.pbkdf2PrfHmacSha256 e.stack) password salt 1024 48 e.keyMemory

/-- `aes_cbc_process` with the key and the vector of `aes_key_and_iv`. -/
def cbc (keyAndIv : List UInt8) (flags : Aes.Flags) (data : List UInt8) (inPlace : Bool) :
    Option (List UInt8) :=
  let bytes := keyAndIv.map UInt8.toBitVec
  (Aes.aesCbcProcess (bytes.take 32) ((bytes.drop 32).take 16) flags (data.map UInt8.toBitVec)
    inPlace).map (List.map UInt8.ofBitVec)

/-- `hmac_compute` with the salt as the key. -/
def checksum (e : Surroundings) (salt data : List UInt8) : Option (List UInt8) :=
  Hmac.hmacCompute (Hmac.hmacSha256Function e.stack) e.stack salt data

/-- What the writer for memory makes of a tag: a buffer, padded to whole blocks. -/
def saveToMemory (e : Surroundings) (tag : Tag) : Option (List UInt8) := do
  let w ← appendTag e.heap (writerInit (.memory none) e.memoryRegion) tag
  let w ← writerFlush e.heap w
  let w ← writerAppend e.heap w (paddingBytes.take ((2 ^ 64 - w.size) % 16))
  let (target, size) ← writerDeinit e.heap w
  match target with
  | .memory (some a) => some ((Block.mk size a.data).text size)
  | _ => none

/-- The part of `config_save_to_file` with a password. -/
def appendEncrypted (e : Surroundings) (w : Writer) (tag : Tag) (password salt : List UInt8) :
    Option Writer := do
  let buffer ← saveToMemory e tag
  let hmac ← checksum e salt buffer
  let w ← writerAppend e.heap w (hmac ++ salt)
  let key ← keyAndIv e password salt
  let buffer ← cbc key ⟨true, false⟩ buffer true
  writerAppend e.heap w buffer

/-- `config_save_to_file` without flags: what the file has in the end. -/
def configSaveToFile (e : Surroundings) (file : List UInt8) (tag : Tag)
    (password : Option (List UInt8)) (salt : List UInt8) : Option (List UInt8) := do
  let flags := if password.isSome then 2 else 0
  let w ← writerAppend e.heap (writerInit (.file file) e.region) (headerBytes flags 0xffffffff)
  let w ←
    match password with
    | none => appendTag e.heap w tag
    | some password => appendEncrypted e w tag password salt
  let (target, size) ← writerDeinit e.heap w
  match target with
  | .file content => some (vfsNodeWrite content 0 (headerBytes flags size))
  | .memory _ => none

/-! ### Reading -/

/-- The part of `_parse_binary_config` for what is encrypted: the decrypted bytes, and whether the
checksum is theirs. -/
def decrypt (e : Surroundings) (password : List UInt8) (data : List UInt8) (length : ℕ) :
    Option (List UInt8 × Bool) := do
  let hmac := data.take 32
  let salt := (data.drop 32).take 16
  let key ← keyAndIv e password salt
  let _ ← Amm.alloc e.heap (length % 2 ^ 32)
  let decoded ← cbc key ⟨false, true⟩ ((data.drop 48).take length) false
  let computed ← checksum e salt decoded
  some (decoded, computed = hmac)

/-- `_parse_binary_config`. Nothing is returned where it panics; `behind` are the bytes of memory
behind what was decrypted. -/
def parseBinaryConfigWith (e : Surroundings) (behind password data : List UInt8) :
    Option (Parsed Node) :=
  let null := .null .null [] []
  if data.length < 10 then some null
  else
    match readWord data, data.drop 4, readWord (data.drop 6) with
    | some (signature, _), version :: flags :: _, some (size, rest) =>
      if signature ≠ 0x80474643 ∨ version ≠ 1 ∨ data.length < size then some null
      else if flags &&& 2 ≠ 0 then
        let length := (size + 2 ^ 64 - 10) % 2 ^ 64
        if length < 48 then some null
        else (decrypt e password rest (length - 48)).bind fun (decoded, valid) =>
          if !valid then some null
          else if flags &&& 1 ≠ 0 then none
          else some (parseBinaryTag (decoded.length + 1) (decoded ++ behind) decoded.length 0)
      else if flags &&& 1 ≠ 0 then none
      else some (parseBinaryTag (data.length + 1) rest (size - 10) 0)
    | _, _, _ => some .fault

/-! ### What is appended -/

section

variable {heap : ℕ → UInt8} {I : List UInt8 → Target → Prop} {Fits : ℕ → Prop}
variable {f g : Writer → Option Writer} {a b l : List UInt8}

/-- The call appends `a`, if there is room. -/
def Appends (I : List UInt8 → Target → Prop) (Fits : ℕ → Prop) (f : Writer → Option Writer)
    (a : List UInt8) : Prop :=
  ∀ l w, Holds I l w → Writers.Ends Fits (l ++ a).length (Holds I (l ++ a)) (f w)

lemma appends_nil : Appends I Fits some [] := fun l w hw => by
  rw [List.append_nil]
  exact ends_some hw

lemma appends_append (hs : Sink heap I Fits) (a : List UInt8) :
    Appends I Fits (fun w => writerAppend heap w a) a := fun _ _ hw => append_ends hs hw a

lemma Appends.bind (hs : Sink heap I Fits) (hf : Appends I Fits f a) (hg : Appends I Fits g b) :
    Appends I Fits (fun w => (f w).bind g) (a ++ b) := fun l w hw => by
  rw [← List.append_assoc]
  refine (hf l w hw).bind (fun hnot hfits => hnot (hs.fits_le _ _ ?_ hfits)) fun w' hw' =>
    hg _ w' hw'
  rw [@List.length_append _ (l ++ a)]
  exact Nat.le_add_right _ _

lemma appends_header (hs : Sink heap I Fits) (type : UInt8) (name : List UInt8) (length : ℕ) :
    Appends I Fits (fun w => appendHeader heap w type name length)
      (saveHeader type name length) := by
  rw [saveHeader, List.append_assoc]
  refine (appends_append hs _).bind hs ((appends_append hs name).bind hs ?_)
  split_ifs
  · exact appends_append hs _
  · exact appends_nil

lemma appends_each (hs : Sink heap I Fits) (data : List UInt8) :
    Appends I Fits (fun w => appendEach heap w data) data := by
  induction data with
  | nil => exact appends_nil
  | cons c data ih => exact (appends_append hs [c]).bind hs ih

mutual

/-- `_save_binary_tag` appends the bytes of the tag. -/
theorem appends_tag (hs : Sink heap I Fits) : ∀ tag : Tag,
    Appends I Fits (fun w => appendTag heap w tag) (saveBinaryTag tag)
  | .none name => by
    simp only [appendTag, saveBinaryTag]
    exact appends_header hs 0 name 0
  | .array name data => by
    simp only [appendTag, saveBinaryTag]
    exact (appends_header hs 1 name _).bind hs (appends_tags hs data)
  | .string name text => by
    simp only [appendTag, saveBinaryTag]
    exact (appends_header hs 2 name _).bind hs (appends_append hs text)
  | .int name value => by
    simp only [appendTag, saveBinaryTag]
    exact (appends_header hs _ name _).bind hs (appends_each hs _)

theorem appends_tags (hs : Sink heap I Fits) : ∀ data : List Tag,
    Appends I Fits (fun w => appendTags heap w data) (saveBinaryTags data)
  | [] => by
    simp only [appendTags, saveBinaryTags]
    exact appends_nil
  | tag :: data => by
    simp only [appendTags, saveBinaryTags]
    exact (appends_tag hs tag).bind hs (appends_tags hs data)

end

lemma holds_init {target : Target} (h : I [] target) (region : ℕ → UInt8) :
    Holds I [] (writerInit target region) :=
  ⟨(by decide : 0 < writerBufferSize), [], rfl, h, rfl, rfl⟩

lemma Appends.get (hf : Appends I Fits f a) {w : Writer} (hw : Holds I l w)
    (hfits : Fits (l ++ a).length) : ∃ w', f w = some w' ∧ Holds I (l ++ a) w' := by
  rcases hf l w hw with h | ⟨-, hnot⟩
  · exact h
  · exact absurd hfits hnot

lemma deinit_get (hs : Sink heap I Fits) {w : Writer} (hw : Holds I l w) (hfits : Fits l.length) :
    ∃ target, writerDeinit heap w = some (target, l.length % 2 ^ 64) ∧ I l target := by
  rcases emitPending_ends hs hw with ⟨w', hw', he⟩ | ⟨-, hnot⟩
  · refine ⟨w'.target, ?_, he.target⟩
    rw [writerDeinit, hw', Option.map_some, he.size]
  · exact absurd hfits hnot

lemma flush_get (hs : Sink heap I Fits) {w : Writer} (hw : Holds I l w) (hfits : Fits l.length) :
    ∃ w', writerFlush heap w = some w' ∧ Holds I l w' ∧ w'.size = l.length % 2 ^ 64 := by
  rcases flush_ends hs hw with ⟨w', hw', hholds⟩ | ⟨-, hnot⟩
  · refine ⟨w', hw', hholds, ?_⟩
    have hoffset : w'.offset = 0 := by
      rw [writerFlush] at hw'
      split_ifs at hw' with hzero
      · obtain ⟨v, -, rfl⟩ := Option.map_eq_some_iff.mp hw'
        rfl
      · obtain rfl := Option.some.inj hw'
        exact not_not.mp hzero
    obtain ⟨-, out, hout, he⟩ := hholds
    rw [hoffset] at hout
    rw [hout, he.size]
    simp [Block.text]
  · exact absurd hfits hnot

end

/-! ### Keys and ciphers -/

section

variable {e e' : Surroundings} {password salt key data out : List UInt8} {inPlace : Bool}

lemma keyAndIv_eq (hsalt : salt.length = 16) : keyAndIv e password salt =
    some (Pbkdf2.derivedKey (Hmac.hmac Sha2.digest 64) password salt 32 1024 48) :=
  Pbkdf2.pbkdf2Compute_eq (Pbkdf2.prf_computes e.stack)
    (by show 32 + Amm.headerSize ≤ _; decide) (by rw [hsalt]; decide) 1023 (by decide) _

lemma checksum_eq : checksum e salt data = some (Hmac.hmac Sha2.digest 64 salt data) :=
  Hmac.hmacCompute_eq (Hmac.hmacSha256_computes e.stack) e.stack salt data

lemma length_keyAndIv (h : keyAndIv e password salt = some key) (hsalt : salt.length = 16) :
    key.length = 48 := by
  rw [keyAndIv_eq hsalt] at h
  rw [← Option.some.inj h, Pbkdf2.derivedKey, List.length_take, List.length_flatMap]
  have hlength : ∀ i, (Pbkdf2.xorOutputs (Hmac.hmac Sha2.digest 64) password salt (i + 1)
      (1024 - 1)).length = 32 := fun i =>
    Pbkdf2.length_xorOutputs (Pbkdf2.prf_computes fun _ => 0) _
  simp only [hlength]
  decide

lemma exists_cbc (hkey : key.length = 48) (hdata : data.length % 16 = 0) :
    ∃ out, cbc key ⟨true, false⟩ data true = some out ∧ out.length = data.length := by
  have hfirst : ((key.map UInt8.toBitVec).take 32).length = 32 := by
    rw [List.length_take, List.length_map, hkey]
    rfl
  have hvector : (((key.map UInt8.toBitVec).drop 32).take 16).length = 16 := by
    rw [List.length_take, List.length_drop, List.length_map, hkey]
    rfl
  have hpadded : (data.map UInt8.toBitVec).length % 16 = 0 := by rw [List.length_map, hdata]
  obtain ⟨state, hstate⟩ := Aes.aesInit_isSome ⟨true, false⟩ (.inr (.inr hfirst)) rfl
  have h := Aes.aesCbcProcess_encrypt true hvector hpadded hstate
  refine ⟨_, by rw [cbc, h]; rfl, ?_⟩
  rw [List.length_map, Aes.aesCbcProcess_length h, List.length_map]

lemma cbc_cbc (h : cbc key ⟨true, false⟩ data inPlace = some out) :
    cbc key ⟨false, true⟩ out false = some data := by
  obtain ⟨bytes, hbytes, rfl⟩ := Option.map_eq_some_iff.mp h
  have hback : (bytes.map UInt8.ofBitVec).map UInt8.toBitVec = bytes := by
    rw [List.map_map]
    exact List.map_id _
  rw [cbc, hback, Aes.aesCbcProcess_decrypts_all hbytes, Option.map_some, List.map_map]
  exact congrArg some (List.map_id _)

end

/-! ### What is saved -/

/-- The bytes of a tag, and of the padding. -/
def padded (tag : Tag) : List UInt8 :=
  saveBinaryTag tag ++ paddingBytes.take ((2 ^ 64 - (saveBinaryTag tag).length) % 16)

lemma padded_length (tag : Tag) (h : (saveBinaryTag tag).length < 2 ^ 32) :
    (padded tag).length = ((saveBinaryTag tag).length + 15) / 16 * 16 := by
  have hpadding : paddingBytes.length = 15 := rfl
  rw [padded, List.length_append, List.length_take, hpadding]
  omega

lemma saveToMemory_eq (e : Surroundings) {tag : Tag} (h : (padded tag).length + 8 ≤ 2 ^ 27) :
    saveToMemory e tag = some (padded tag) := by
  have hs := memory_sink e.heap
  have hheader : Amm.headerSize = 8 := rfl
  have hle : (saveBinaryTag tag).length ≤ (padded tag).length := by
    rw [padded, List.length_append]
    exact Nat.le_add_right _ _
  have hpos := four_le_length tag
  obtain ⟨w, hw, hholds⟩ := (appends_tag hs tag).get
    (holds_init ⟨none, rfl, fun _ => rfl, fun h => absurd rfl h⟩ e.memoryRegion)
    (by rw [List.nil_append]; omega)
  rw [List.nil_append] at hholds
  obtain ⟨w1, hw1, hholds1, hsize⟩ := flush_get hs hholds (by omega)
  rw [Nat.mod_eq_of_lt (by omega)] at hsize
  obtain ⟨w2, hw2, hholds2⟩ := (appends_append hs (paddingBytes.take
    ((2 ^ 64 - (saveBinaryTag tag).length) % 16))).get hholds1 (by rw [← padded]; omega)
  rw [← padded] at hholds2
  obtain ⟨target, hdeinit, hmemory⟩ := deinit_get hs hholds2 (by omega)
  rw [Nat.mod_eq_of_lt (by omega)] at hdeinit
  obtain ⟨buffer, rfl, -, hfull⟩ := hmemory
  obtain ⟨-, a, rfl, -, htext⟩ := hfull (ne_nil_of_length (by omega))
  simp only [saveToMemory, Option.bind_eq_bind, hw, Option.bind_some, hw1, hsize, hw2, hdeinit,
    htext]

@[simp] lemma headerBytes_length (flags : UInt8) (size : ℕ) :
    (headerBytes flags size).length = 10 := by
  simp [headerBytes]

lemma rewrite_header (flags : UInt8) (size size' : ℕ) (rest : List UInt8) :
    vfsNodeWrite (headerBytes flags size' ++ rest) 0 (headerBytes flags size) =
      headerBytes flags size ++ rest := by
  rw [vfsNodeWrite, List.take_zero, List.nil_append, List.take_of_length_le (by simp), Nat.zero_add,
    headerBytes_length, List.drop_left' (headerBytes_length _ _)]

section

variable {e : Surroundings} {file rest : List UInt8} {tag : Tag} {salt : List UInt8}

/-- The end of a file whose writer has appended `rest` behind the header. -/
lemma finish_file {w : Writer} {flags : UInt8}
    (h : Holds (FileHolds file) (headerBytes flags 0xffffffff ++ rest) w)
    (hlt : 10 + rest.length < 2 ^ 32) :
    ∃ content, writerDeinit e.heap w = some (.file content, 10 + rest.length) ∧
      vfsNodeWrite content 0 (headerBytes flags (10 + rest.length)) =
        headerBytes flags (10 + rest.length) ++ rest := by
  have hlength : (headerBytes flags 0xffffffff ++ rest).length = 10 + rest.length := by
    rw [List.length_append, headerBytes_length]
  obtain ⟨target, hdeinit, content, rfl, -, hcontent, -⟩ :=
    deinit_get (file_sink e.heap file) h trivial
  rw [hlength, Nat.mod_eq_of_lt (by omega)] at hdeinit
  refine ⟨content, hdeinit, ?_⟩
  rw [hcontent (ne_nil_of_length (by omega)) (by omega)]
  exact rewrite_header flags _ _ rest

lemma start_file (e : Surroundings) (file : List UInt8) (flags : UInt8) : ∃ w,
    writerAppend e.heap (writerInit (.file file) e.region) (headerBytes flags 0xffffffff) = some w ∧
      Holds (FileHolds file) (headerBytes flags 0xffffffff) w :=
  (appends_append (file_sink e.heap file) _).get
    (holds_init ⟨file, rfl, fun _ => rfl, fun h => absurd rfl h, fun h => absurd rfl h⟩ e.region)
    trivial

lemma configSaveToFile_plain (e : Surroundings) (file salt : List UInt8)
    (h : 10 + (saveBinaryTag tag).length < 2 ^ 32) :
    configSaveToFile e file tag none salt =
      some (headerBytes 0 (10 + (saveBinaryTag tag).length) ++ saveBinaryTag tag) := by
  obtain ⟨w, hw, hholds⟩ := start_file e file 0
  obtain ⟨w1, hw1, hholds1⟩ :=
    (appends_tag (file_sink e.heap file) tag).get hholds trivial
  obtain ⟨content, hdeinit, hcontent⟩ := finish_file (e := e) hholds1 h
  simp only [configSaveToFile, Option.isSome_none, Bool.false_eq_true, if_false,
    Option.bind_eq_bind, hw, Option.bind_some, hw1, hdeinit, hcontent]

lemma configSaveToFile_encrypted (password : List UInt8) (e : Surroundings) (file : List UInt8)
    (hsalt : salt.length = 16)
    (h : (padded tag).length + 8 ≤ 2 ^ 27) :
    ∃ key encrypted, keyAndIv e password salt = some key ∧
      cbc key ⟨true, false⟩ (padded tag) true = some encrypted ∧
      encrypted.length = (padded tag).length ∧
      configSaveToFile e file tag (some password) salt =
        some (headerBytes 2 (58 + (padded tag).length) ++
          (Hmac.hmac Sha2.digest 64 salt (padded tag) ++ salt ++ encrypted)) := by
  have hkey : keyAndIv e password salt = some _ := keyAndIv_eq hsalt
  have hle : (saveBinaryTag tag).length ≤ (padded tag).length := by
    rw [padded, List.length_append]
    exact Nat.le_add_right _ _
  have hwhole : (padded tag).length % 16 = 0 := by
    rw [padded_length tag (by omega)]
    exact Nat.mul_mod_left _ _
  obtain ⟨encrypted, hencrypted, hlength⟩ := exists_cbc (length_keyAndIv hkey hsalt) hwhole
  refine ⟨_, encrypted, hkey, hencrypted, hlength, ?_⟩
  set hmac := Hmac.hmac Sha2.digest 64 salt (padded tag) with hhmac
  have hmac_length : hmac.length = 32 := Hmac.length_digest _
  obtain ⟨w, hw, hholds⟩ := start_file e file 2
  obtain ⟨w1, hw1, hholds1⟩ :=
    (appends_append (file_sink e.heap file) (hmac ++ salt)).get hholds trivial
  obtain ⟨w2, hw2, hholds2⟩ :=
    (appends_append (file_sink e.heap file) encrypted).get hholds1 trivial
  rw [List.append_assoc] at hholds2
  have hrest : 10 + (hmac ++ salt ++ encrypted).length = 58 + (padded tag).length := by
    simp only [List.length_append, hmac_length, hsalt, hlength]
    omega
  obtain ⟨content, hdeinit, hcontent⟩ := finish_file (e := e) hholds2 (by rw [hrest]; omega)
  rw [hrest] at hdeinit hcontent
  simp only [configSaveToFile, Option.isSome_some, if_true, appendEncrypted,
    Option.bind_eq_bind, hw, Option.bind_some, saveToMemory_eq e h, checksum_eq, ← hhmac, hw1, hkey,
    hencrypted, hw2, hdeinit, hcontent]

end

/-! ### What is loaded -/

section

variable {e : Surroundings} {behind password rest : List UInt8} {size : ℕ}

lemma parse_header (flags : UInt8) (hsize : size < 2 ^ 32) (hlt : size ≤ 10 + rest.length) :
    parseBinaryConfigWith e behind password (headerBytes flags size ++ rest) =
      if flags &&& 2 ≠ 0 then
        if (size + 2 ^ 64 - 10) % 2 ^ 64 < 48 then some (.null .null [] [])
        else (decrypt e password rest ((size + 2 ^ 64 - 10) % 2 ^ 64 - 48)).bind
          fun (decoded, valid) =>
            if !valid then some (.null .null [] [])
            else if flags &&& 1 ≠ 0 then none
            else some (parseBinaryTag (decoded.length + 1) (decoded ++ behind) decoded.length 0)
      else if flags &&& 1 ≠ 0 then none
      else some (parseBinaryTag (10 + rest.length + 1) rest (size - 10) 0) := by
  have hdata : headerBytes flags size ++ rest =
      bytesOf 0x80474643 4 ++ (1 :: flags :: (bytesOf size 4 ++ rest)) := by
    simp [headerBytes]
  have hlength : (headerBytes flags size ++ rest).length = 10 + rest.length := by simp
  have hfirst : readWord (headerBytes flags size ++ rest) =
      some (0x80474643, 1 :: flags :: (bytesOf size 4 ++ rest)) := by
    rw [hdata, readWord_bytesOf (by norm_num)]
  have hversion : (headerBytes flags size ++ rest).drop 4 =
      1 :: flags :: (bytesOf size 4 ++ rest) := by
    rw [hdata, List.drop_left' (length_bytesOf _ _)]
  have hsecond : readWord ((headerBytes flags size ++ rest).drop 6) = some (size, rest) := by
    rw [← List.drop_drop (i := 2) (j := 4), hversion]
    exact readWord_bytesOf hsize
  have hnot : ¬(0x80474643 ≠ 0x80474643 ∨ (1 : UInt8) ≠ 1 ∨ 10 + rest.length < size) := by
    simp
    omega
  simp only [parseBinaryConfigWith]
  rw [hlength, if_neg (by omega), hfirst, hversion, hsecond]
  dsimp only
  rw [if_neg hnot]

/-- What was encrypted, and anything behind it, is decrypted with its checksum. -/
lemma decrypt_encrypted {e' : Surroundings} {salt key data encrypted tail : List UInt8}
    (hsalt : salt.length = 16) (hkey : keyAndIv e' password salt = some key)
    (h : cbc key ⟨true, false⟩ data true = some encrypted)
    (hlength : encrypted.length = data.length)
    (hpos : 0 < data.length) (hfits : data.length + 8 ≤ 2 ^ 27) :
    decrypt e password (Hmac.hmac Sha2.digest 64 salt data ++ salt ++ encrypted ++ tail)
      data.length = some (data, true) := by
  set hmac := Hmac.hmac Sha2.digest 64 salt data with hhmac
  have hmac_length : hmac.length = 32 := Hmac.length_digest _
  have hkey' : keyAndIv e password salt = some key := by
    rw [keyAndIv_eq hsalt, ← keyAndIv_eq (e := e') hsalt, hkey]
  have hall : hmac ++ salt ++ encrypted ++ tail = hmac ++ (salt ++ (encrypted ++ tail)) := by simp
  have htake : (hmac ++ (salt ++ (encrypted ++ tail))).take 32 = hmac :=
    List.take_left' hmac_length
  have hdrop : (hmac ++ (salt ++ (encrypted ++ tail))).drop 32 = salt ++ (encrypted ++ tail) :=
    List.drop_left' hmac_length
  have hbehind : (hmac ++ (salt ++ (encrypted ++ tail))).drop 48 = encrypted ++ tail := by
    rw [← List.drop_drop (i := 16) (j := 32), hdrop, List.drop_left' hsalt]
  have halloc : Amm.alloc e.heap data.length = some _ := Amm.alloc_eq e.heap hpos hfits
  rw [hall, decrypt, htake, hdrop, hbehind, List.take_left' hsalt, List.take_left' hlength, hkey',
    Nat.mod_eq_of_lt (by omega), halloc]
  simp only [Option.bind_eq_bind, Option.bind_some, cbc_cbc h, checksum_eq, ← hhmac, decide_true]

end

/-- The lengths that a file may have: the size in the header is a number of 32 bits, and the buffer
that is encrypted is allocated. -/
def FileFits (tag : Tag) : Option (List UInt8) → Prop
  | none => 10 + (saveBinaryTag tag).length < 2 ^ 32
  | some _ => (padded tag).length + 8 ≤ 2 ^ 27

/-- What follows the bytes of the tag when it is read. -/
def following (tag : Tag) (tail behind : List UInt8) : Option (List UInt8) → List UInt8
  | none => tail
  | some _ => paddingBytes.take ((2 ^ 64 - (saveBinaryTag tag).length) % 16) ++ behind

/-- The tag comes back with its parents. -/
def Loads (tag : Tag) (r : Option (Parsed Node)) : Prop :=
  ∃ node after limit next allocated, r = some (.ok node after limit next allocated) ∧
    node.tag = some tag ∧ node.Linked none

lemma Back.loads_iff {r : Parsed Node} {tag : Tag} {after : List UInt8} {limit : ℕ} {good : Prop}
    (h : Back r tag after limit good) : Loads tag (some r) ↔ good := by
  constructor
  · rintro ⟨node, data, limit', next, allocated, hok, htag, -⟩
    exact (h.stays _ _ _ _ _ (Option.some.inj hok)).2.2 htag
  · intro hgood
    obtain ⟨node, next, allocated, hok, htag, hlinked⟩ := h.comes hgood
    exact ⟨node, _, _, next, allocated, congrArg some hok, htag, hlinked⟩

/-- **Files.** A configuration that `config_save_to_file` has written, with a password or without,
is loaded with this password as the same tag if and only if every name and string of no bytes is
followed by a zero and no array or string is too long. This holds for every salt, for whatever the
file was before and is behind, and whatever memory holds that was not written. -/
theorem configSaveToFile_loads {tag : Tag} (h : Storable tag) {password : Option (List UInt8)}
    (hfits : FileFits tag password) {salt : List UInt8} (hsalt : salt.length = 16)
    (e e' : Surroundings) (file tail behind : List UInt8) :
    ∃ content, configSaveToFile e file tag password salt = some content ∧
      (Loads tag (parseBinaryConfigWith e' behind (password.getD []) (content ++ tail)) ↔
        Followed tag (following tag tail behind password)) := by
  cases password with
  | none =>
    rw [FileFits] at hfits
    refine ⟨_, configSaveToFile_plain e file salt hfits, ?_⟩
    rw [List.append_assoc, parse_header 0 hfits
      (by rw [List.length_append]; omega), if_neg (by decide), if_neg (by decide)]
    rw [Nat.add_sub_cancel_left]
    exact (backTag tag _ tail 0 0 h (by rw [List.length_append]; omega)).loads_iff
  | some password =>
    rw [FileFits] at hfits
    have hle : (saveBinaryTag tag).length ≤ (padded tag).length := by
      rw [padded, List.length_append]
      exact Nat.le_add_right _ _
    have hpos := four_le_length tag
    obtain ⟨key, encrypted, hkey, hencrypted, hlength, hsave⟩ :=
      configSaveToFile_encrypted password e file hsalt hfits
    have hmac_length : (Hmac.hmac Sha2.digest 64 salt (padded tag)).length = 32 :=
      Hmac.length_digest _
    refine ⟨_, hsave, ?_⟩
    rw [List.append_assoc, parse_header 2 (by omega)
      (by simp only [List.length_append, hmac_length, hsalt, hlength]; omega), if_pos (by decide)]
    have hsize : (58 + (padded tag).length + 2 ^ 64 - 10) % 2 ^ 64 = 48 + (padded tag).length := by
      omega
    rw [hsize, if_neg (by omega), Nat.add_sub_cancel_left, Option.getD_some,
      decrypt_encrypted hsalt hkey hencrypted hlength (by omega) hfits, Option.bind_some]
    dsimp only
    rw [Bool.not_true, if_neg (by decide), if_neg (by decide)]
    have hsplit : padded tag ++ behind =
        saveBinaryTag tag ++ following tag tail behind (some password) := by
      rw [padded, List.append_assoc]
      rfl
    have hlimit : (padded tag).length =
        (saveBinaryTag tag).length + ((padded tag).length - (saveBinaryTag tag).length) := by
      omega
    rw [hsplit, hlimit]
    exact (backTag tag _ _ _ 0 h (by omega)).loads_iff

/-- An array with an integer, in a file with a password. -/
def account : Tag := .array [97] [.int [98] 5]

def cleared : Surroundings := ⟨fun _ => 0, fun _ => 0, fun _ => 0, fun _ => 0, fun _ => 0⟩

theorem configSaveToFile_loads_account : ∃ content,
    configSaveToFile cleared [] account (some [112, 119]) (List.replicate 16 7) = some content ∧
      Loads account (parseBinaryConfigWith cleared [] [112, 119] (content ++ [])) := by
  have hstorable : Storable account := ⟨by decide, by decide, (by decide : 1 ≤ 255), trivial⟩
  have hfits : FileFits account (some [112, 119]) := by
    show _ ≤ _
    decide +kernel
  obtain ⟨content, hsave, hloads⟩ := configSaveToFile_loads hstorable hfits
    (List.length_replicate : (List.replicate 16 (7 : UInt8)).length = 16) cleared cleared [] [] []
  exact ⟨content, hsave, hloads.mpr ⟨by decide, .inl (by simp), .inl (by simp), trivial⟩⟩

end KernelModel.Config
