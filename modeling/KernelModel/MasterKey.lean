import KernelModel.AesInverse
import KernelModel.Runs

/-!
The master key over boots.

The root block of the boot volume keeps the master key, encrypted with a key that the TPM gives.
Each boot decrypts it, and encrypts it again for the root block with a new vector. No vector is
kept, so each boot decrypts with another one than was used; that costs the first block of what it
gets, and the key is behind it.
-/

namespace KernelModel.MasterKey

open Aes GaloisByte Runs

abbrev Bytes (n : ℕ) : Type := {l : List Byte // l.length = n}

def zeros (n : ℕ) : Bytes n := ⟨List.replicate n 0, List.length_replicate⟩

def append {m n : ℕ} (a : Bytes m) (b : Bytes n) : Bytes (m + n) :=
  ⟨a.1 ++ b.1, by rw [List.length_append, a.2, b.2]⟩

/-- `mem_copy(keyring_master_key,buffer+32,32)` -/
def secondHalf (buffer : Bytes 64) : Bytes 32 :=
  ⟨buffer.1.drop 32, by rw [List.length_drop, buffer.2]⟩

/-- `aes_cbc_process`, with the length of its output. -/
def cbc {n : ℕ} (key : Bytes 32) (vector : Bytes 16) (flags : Flags) (data : Bytes n)
    (inPlace : Bool) : Option (Bytes n) :=
  match h : aesCbcProcess key.1 vector.1 flags data.1 inPlace with
  | none => none
  | some out => some ⟨out, (aesCbcProcess_length h).trans data.2⟩

/-- The static data of the file. -/
structure Keyring where
  masterKeyEncrypted : Bytes 64
  platformKeyEncrypted : Bytes 64
  masterKey : Bytes 32

/-- What `random_generate` gives, a field for each call. -/
structure Random where
  decryptionVector : Bytes 16
  generatedKey : Bytes 32
  vector : Bytes 16
  filler : Bytes 32
  platformVector : Bytes 16
  platformFiller : Bytes 32

/-- `non-release-constant-master-key` and a byte `0x7f`. -/
def nonReleaseKey : Bytes 32 := ⟨[
  0x6e, 0x6f, 0x6e, 0x2d, 0x72, 0x65, 0x6c, 0x65, 0x61, 0x73, 0x65, 0x2d, 0x63, 0x6f, 0x6e, 0x73,
  0x74, 0x61, 0x6e, 0x74, 0x2d, 0x6d, 0x61, 0x73, 0x74, 0x65, 0x72, 0x2d, 0x6b, 0x65, 0x79, 0x7f],
  rfl⟩

/-- The initialization of the file, from `kernel_data`. -/
def load (stored : Bytes 64) : Keyring := ⟨stored, zeros 64, zeros 32⟩

/-- The key that is decrypted, given or generated. -/
def chooseKey (random : Random) (keyring : Keyring) (platformKey : Bytes 32)
    (masterKey : Option (Bytes 32)) : Option (Bytes 32) :=
  if keyring.masterKeyEncrypted.1.any (· ≠ 0) then
    (cbc platformKey random.decryptionVector ⟨false, true⟩ keyring.masterKeyEncrypted false).map
      secondHalf
  else some (masterKey.getD random.generatedKey)

/-- `keyring_master_key_set_platform_key`. Nothing is returned where it panics. The buffers that are
cleared in the end are not modelled. -/
def setPlatformKey (release : Bool) (random : Random) (keyring : Keyring) (platformKey : Bytes 32)
    (masterKey : Option (Bytes 32)) : Option Keyring := do
  let key ← chooseKey random keyring platformKey masterKey
  let key := if release then key else nonReleaseKey
  let masterKeyEncrypted ← cbc platformKey random.vector ⟨true, false⟩
    (append random.filler key) true
  let platformKeyEncrypted ←
    cbc key random.platformVector ⟨true, false⟩ (append random.platformFiller platformKey) true
  some ⟨masterKeyEncrypted, platformKeyEncrypted, key⟩

/-! ### Boots -/

structure Boot where
  /-- What `tpm_init` measures, if there is a TPM with the hash that it needs. -/
  platformKey : Option (Bytes 32)
  random : Random
  /-- The root file system is mounted, and its root block written. -/
  mounted : Bool

structure Machine where
  /-- `root_block.master_key` -/
  stored : Bytes 64
  /-- `keyring_master_key` in the last boot. -/
  masterKey : Bytes 32

/-- The keys of a boot. -/
def start (release : Bool) (stored : Bytes 64) (b : Boot) : Option Keyring :=
  match b.platformKey with
  | none => some (load stored)
  | some platformKey => setPlatformKey release b.random (load stored) platformKey none

/-- A boot: the loader passes on what is stored, and `_kfs2_fs_mount` stores what
`keyring_master_key_get_encrypted` gives. -/
def boot (release : Bool) (s : Machine) (b : Boot) : Option Machine :=
  (start release s.stored b).map fun keyring =>
    ⟨if b.mounted then keyring.masterKeyEncrypted else s.stored, keyring.masterKey⟩

/-! ### Encryption of arrays -/

section

variable {n : ℕ} {key : Bytes 32} {vector : Bytes 16} {flags : Flags} {data out : Bytes n}
variable {inPlace : Bool}

lemma cbc_eq_some : cbc key vector flags data inPlace = some out ↔
    aesCbcProcess key.1 vector.1 flags data.1 inPlace = some out.1 := by
  unfold cbc
  split
  · rename_i h
    rw [h]
    simp
  · rename_i out' h
    constructor
    · intro heq
      rw [h, ← Option.some.inj heq]
    · intro heq
      rw [h] at heq
      exact congrArg some (Subtype.ext (Option.some.inj heq))

lemma exists_cbc_encrypt (hn : n % 16 = 0) (key : Bytes 32) (vector : Bytes 16) (data : Bytes n) :
    ∃ out, cbc key vector ⟨true, false⟩ data true = some out := by
  obtain ⟨state, hstate⟩ := aesInit_isSome ⟨true, false⟩ (.inr (.inr key.2)) rfl
  have h := aesCbcProcess_encrypt true vector.2 (data.2 ▸ hn) hstate
  exact ⟨⟨_, (aesCbcProcess_length h).trans data.2⟩, cbc_eq_some.mpr h⟩

lemma exists_cbc_decrypt (hn : n % 16 = 0) (key : Bytes 32) (vector : Bytes 16) (data : Bytes n) :
    ∃ out, cbc key vector ⟨false, true⟩ data false = some out := by
  obtain ⟨state, hstate⟩ := aesInit_isSome ⟨false, true⟩ (.inr (.inr key.2)) rfl
  have h := aesCbcProcess_decrypt vector.2 (data.2 ▸ hn) hstate
  exact ⟨⟨_, (aesCbcProcess_length h).trans data.2⟩, cbc_eq_some.mpr h⟩

end

lemma any_iff {n : ℕ} (b : Bytes n) : b.1.any (· ≠ 0) = true ↔ b ≠ zeros n := by
  rw [List.any_eq_true, ne_eq, Subtype.ext_iff, zeros, List.eq_replicate_iff]
  constructor
  · rintro ⟨x, hx, hne⟩ ⟨-, hall⟩
    exact (of_decide_eq_true hne) (hall x hx)
  · intro h
    by_contra hnone
    refine h ⟨b.2, fun x hx => ?_⟩
    by_contra hne
    exact hnone ⟨x, hx, decide_eq_true hne⟩

/-! ### The key that is stored -/

variable {release : Bool} {platformKey key : Bytes 32} {stored : Bytes 64}

/-- With every vector, the stored bytes are decrypted to the key. -/
def Recovers (platformKey key : Bytes 32) (stored : Bytes 64) : Prop :=
  ∀ vector buffer, cbc platformKey vector ⟨false, true⟩ stored false = some buffer →
    secondHalf buffer = key

lemma recovers_of_cbc {vector : Bytes 16} {filler : Bytes 32}
    (h : cbc platformKey vector ⟨true, false⟩ (append filler key) true = some stored) :
    Recovers platformKey key stored := by
  intro vector' buffer hbuffer
  obtain ⟨data, hdata, -, hdrop⟩ := aesCbcProcess_decrypts_behind vector'.2 (cbc_eq_some.mp h)
  rw [cbc_eq_some.mp hbuffer] at hdata
  obtain rfl := Option.some.inj hdata
  refine Subtype.ext ?_
  have hsecond : ∀ l : List Byte, l.drop 32 = (l.drop 16).drop 16 := fun l => by
    rw [List.drop_drop]
  show buffer.1.drop 32 = key.1
  rw [hsecond, hdrop, ← hsecond, append, List.drop_left' filler.2]

/-- A key that is stored is the one that is chosen, and otherwise it is new. -/
lemma exists_chosen (random : Random) (keyring : Keyring) (platformKey : Bytes 32)
    (masterKey : Option (Bytes 32)) : ∃ key,
      chooseKey random keyring platformKey masterKey = some key ∧
        (keyring.masterKeyEncrypted = zeros 64 → key = masterKey.getD random.generatedKey) ∧
        (keyring.masterKeyEncrypted ≠ zeros 64 →
          ∀ key', Recovers platformKey key' keyring.masterKeyEncrypted → key = key') := by
  rw [chooseKey]
  by_cases hany : keyring.masterKeyEncrypted.1.any (· ≠ 0) = true
  · obtain ⟨buffer, hbuffer⟩ := exists_cbc_decrypt (by decide) platformKey
      random.decryptionVector keyring.masterKeyEncrypted
    rw [if_pos hany, hbuffer]
    exact ⟨_, rfl, fun hzero => absurd hzero ((any_iff _).mp hany),
      fun _ key' hrecovers => hrecovers _ _ hbuffer⟩
  · rw [if_neg hany]
    exact ⟨_, rfl, fun _ => rfl, fun hne => absurd ((any_iff _).mpr hne) hany⟩

/-- What `keyring_master_key_set_platform_key` leaves behind. -/
structure Set (release : Bool) (platformKey new : Bytes 32)
    (keyring keyring' : Keyring) : Prop where
  recovers : Recovers platformKey keyring'.masterKey keyring'.masterKeyEncrypted
  constant : release = false → keyring'.masterKey = nonReleaseKey
  first : release = true → keyring.masterKeyEncrypted = zeros 64 → keyring'.masterKey = new
  kept : release = true → keyring.masterKeyEncrypted ≠ zeros 64 →
    ∀ key, Recovers platformKey key keyring.masterKeyEncrypted → keyring'.masterKey = key

lemma exists_set (release : Bool) (random : Random) (keyring : Keyring) (platformKey : Bytes 32)
    (masterKey : Option (Bytes 32)) : ∃ keyring',
      setPlatformKey release random keyring platformKey masterKey = some keyring' ∧
        Set release platformKey (masterKey.getD random.generatedKey) keyring keyring' := by
  obtain ⟨key, hkey, hfirst, hkept⟩ := exists_chosen random keyring platformKey masterKey
  set used := if release then key else nonReleaseKey with hused
  obtain ⟨encrypted, hencrypted⟩ := exists_cbc_encrypt (by decide) platformKey random.vector
    (append random.filler used)
  obtain ⟨platform, hplatform⟩ := exists_cbc_encrypt (by decide) used random.platformVector
    (append random.platformFiller platformKey)
  refine ⟨⟨encrypted, platform, used⟩, ?_, recovers_of_cbc hencrypted, fun h => ?_,
    fun h hzero => ?_, fun h hne key' hrecovers => ?_⟩
  · rw [setPlatformKey, hkey]
    simp only [Option.bind_eq_bind, Option.bind_some, ← hused, hencrypted, hplatform]
  · rw [h] at hused
    exact hused
  · rw [h] at hused
    exact hused.trans (hfirst hzero)
  · rw [h] at hused
    exact hused.trans (hkept hne key' hrecovers)

/-! ### Runs -/

/-- The boot has the platform key or none, and in the first case there is something stored. -/
def Readable (platformKey : Bytes 32) (s : Machine) (b : Boot) : Prop :=
  b.platformKey = none ∨ b.platformKey = some platformKey ∧ s.stored ≠ zeros 64

/-- What is stored holds the key. -/
structure Holds (release : Bool) (platformKey key : Bytes 32) (s : Machine) : Prop where
  recovers : Recovers platformKey key s.stored
  constant : release = false → key = nonReleaseKey

/-- The boot does not panic, and with the platform key it has the master key. -/
def Gives (release : Bool) (platformKey key : Bytes 32) (s : Machine) (b : Boot) : Prop :=
  ∃ t, boot release s b = some t ∧ (b.platformKey = some platformKey → t.masterKey = key)

lemma boot_set (release : Bool) (s : Machine) {b : Boot} (hb : b.platformKey = some platformKey) :
    ∃ keyring, Set release platformKey b.random.generatedKey (load s.stored) keyring ∧
      boot release s b =
        some ⟨if b.mounted then keyring.masterKeyEncrypted else s.stored, keyring.masterKey⟩ := by
  obtain ⟨keyring, hset, h⟩ := exists_set release b.random (load s.stored) platformKey none
  have hstart : start release s.stored b = some keyring := by
    rw [start, hb]
    exact hset
  exact ⟨keyring, h, by rw [boot, hstart, Option.map_some]⟩

lemma Holds.set {s : Machine} {new : Bytes 32} {keyring : Keyring}
    (h : Holds release platformKey key s)
    (hset : Set release platformKey new (load s.stored) keyring) (hne : s.stored ≠ zeros 64) :
    keyring.masterKey = key := by
  cases hrelease : release with
  | false => rw [hset.constant hrelease, h.constant hrelease]
  | true => exact hset.kept hrelease hne key h.recovers

lemma holds_step {s t : Machine} {b : Boot} (h : Holds release platformKey key s)
    (hok : Readable platformKey s b) (hstep : boot release s b = some t) :
    Holds release platformKey key t := by
  rcases hok with hb | ⟨hb, hne⟩
  · rw [boot, start, hb] at hstep
    obtain rfl := Option.some.inj hstep
    refine ⟨?_, h.constant⟩
    have hrecovers := h.recovers
    cases b.mounted <;> exact hrecovers
  · obtain ⟨keyring, hset, heq⟩ := boot_set release s hb
    rw [heq] at hstep
    obtain rfl := Option.some.inj hstep
    have hkey := h.set hset hne
    refine ⟨?_, h.constant⟩
    cases b.mounted with
    | false => exact h.recovers
    | true => exact hkey ▸ hset.recovers

lemma gives_of_holds {s : Machine} {b : Boot} (h : Holds release platformKey key s)
    (hok : Readable platformKey s b) : Gives release platformKey key s b := by
  rcases hok with hb | ⟨hb, hne⟩
  · refine ⟨_, by rw [boot, start, hb]; rfl, fun hsome => ?_⟩
    rw [hb] at hsome
    cases hsome
  · obtain ⟨keyring, hset, heq⟩ := boot_set release s hb
    exact ⟨_, heq, fun _ => h.set hset hne⟩

/-- **The master key survives.** After a boot with a platform key that mounts the root file system,
every later boot that has this platform key has the same master key, whatever the random numbers
are and wherever a boot ends before it mounts, as long as what is stored is not all zeros. -/
theorem masterKey_kept {s t : Machine} {first : Boot} (hkey : first.platformKey = some platformKey)
    (hmounted : first.mounted = true) (hfirst : boot release s first = some t) {boots : List Boot}
    (hok : Along (boot release) (Readable platformKey) t boots) :
    Along (boot release) (Gives release platformKey t.masterKey) t boots := by
  obtain ⟨keyring, hset, heq⟩ := boot_set release s hkey
  rw [heq, hmounted] at hfirst
  obtain rfl := Option.some.inj hfirst
  exact along_of_inv (fun _ _ _ hs => holds_step hs) (fun _ _ hs => gives_of_holds hs) boots _
    ⟨hset.recovers, hset.constant⟩ hok

/-- A boot with a TPM, where `random_generate` gives one byte all the time. -/
def boots (x : Byte) : Boot where
  platformKey := some (zeros 32)
  random :=
    let bytes (n : ℕ) : Bytes n := ⟨List.replicate n x, List.length_replicate⟩
    ⟨bytes 16, bytes 32, bytes 16, bytes 32, bytes 16, bytes 32⟩
  mounted := true

/-- Two keys are not both stored as zeros, and one that is not is read again after a boot without a
TPM. -/
theorem masterKey_kept_twice : ∃ x t, boot true ⟨zeros 64, zeros 32⟩ (boots x) = some t ∧
    Along (boot true) (Gives true (zeros 32) t.masterKey) t
      [{ boots 5 with platformKey := none }, boots 7] := by
  have hlater : ∀ x t, boot true ⟨zeros 64, zeros 32⟩ (boots x) = some t → t.stored ≠ zeros 64 →
      Along (boot true) (Gives true (zeros 32) t.masterKey) t
        [{ boots 5 with platformKey := none }, boots 7] := by
    refine fun x t ht hne => masterKey_kept rfl rfl ht ⟨.inl rfl, fun u hu => ⟨.inr ⟨rfl, ?_⟩, ?_⟩⟩
    · obtain rfl := Option.some.inj hu
      exact hne
    · exact fun _ _ => trivial
  obtain ⟨keyring, hset, h⟩ := boot_set true ⟨zeros 64, zeros 32⟩ (b := boots 0) rfl
  obtain ⟨keyring', hset', h'⟩ := boot_set true ⟨zeros 64, zeros 32⟩ (b := boots 1) rfl
  by_cases hzero : keyring.masterKeyEncrypted = zeros 64
  · refine ⟨1, _, h', hlater 1 _ h' fun hzero' => ?_⟩
    have hzero' : keyring'.masterKeyEncrypted = zeros 64 := hzero'
    have hrecovers := hset.recovers
    have hrecovers' := hset'.recovers
    rw [hzero, hset.first rfl rfl] at hrecovers
    rw [hzero', hset'.first rfl rfl] at hrecovers'
    obtain ⟨buffer, hbuffer⟩ := exists_cbc_decrypt (by decide) (zeros 32) (zeros 16) (zeros 64)
    have heq := (hrecovers _ _ hbuffer).symm.trans (hrecovers' _ _ hbuffer)
    exact absurd (congrArg (fun key => key.1.head?) heq) (by decide)
  · exact ⟨0, _, h, hlater 0 _ h hzero⟩

end KernelModel.MasterKey
