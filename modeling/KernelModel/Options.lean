import KernelModel.Blocks
import KernelModel.Format

/-!
The command line options of the system library.

Strings are lists of characters, without their zeros. An option keeps its value in a variable, or
adds it to an array whose length is a word of 32 bits.
-/

namespace KernelModel.Options

open Format (code codes)

inductive OptionType
  | a | b | i | q | f | d | s | n | y
  deriving DecidableEq

def OptionType.char : OptionType → Char
  | .a => 'a'
  | .b => 'b'
  | .i => 'i'
  | .q => 'q'
  | .f => 'f'
  | .d => 'd'
  | .s => 's'
  | .n => 'n'
  | .y => 'y'

def optionDataFlagAccumulate : ℕ := 0x01
def optionDataFlagSigned : ℕ := 0x04
def optionDataFlagNonzero : ℕ := 0x08

inductive Value
  | bool (value : Bool)
  | u32 (value : ℕ)
  | u64 (value : ℕ)
  | str (value : List UInt8)
  deriving DecidableEq

/-- What the pointers of an option lead to. -/
structure Target where
  value : Value
  array : Block Value
  length : UInt32

structure OptionGroup where
  seen : Bool
  name : List UInt8

structure OptionData where
  group : OptionGroup
  type : OptionType
  flags : ℕ
  name : List UInt8
  target : Target

def OptionData.has (option : OptionData) (flag : ℕ) : Bool := option.flags &&& flag ≠ 0

/-- The returned value, the option, and what is printed. -/
structure Parsed where
  accepted : Bool
  option : Option OptionData
  printed : List UInt8

def OptionData.see (option : OptionData) : OptionData :=
  { option with group := { option.group with seen := true } }

def OptionData.setValue (option : OptionData) (value : Value) : OptionData :=
  { option with target := { option.target with value } }

/-- `OPTION_EMIT_DATA` -/
def optionEmitData (option : OptionData) (value : Value) : Option OptionData :=
  if option.has optionDataFlagAccumulate then do
    let length := option.target.length + 1
    let array ← (Block.mk length.toNat option.target.array.data).write (length - 1).toNat value
    some { option with target := { option.target with array, length } }
  else some (option.setValue value)

/-- The loop over the digits: the value, or the message. -/
def parseDigits (exeName base : List UInt8) (mask value : ℕ) : List UInt8 → Except (List UInt8) ℕ
  | [] => .ok value
  | c :: arg =>
    if c < code '0' ∨ c > code '9' then
      .error (exeName ++ codes ": invalid base-10 character: '" ++ [c] ++ codes "'\n")
    else
      let tmp := (value * 10 + (c.toNat - 48)) % 2 ^ 64 &&& mask
      if tmp < value then .error (exeName ++ codes ": integer overflow: '" ++ base ++ codes "'\n")
      else parseDigits exeName base mask tmp arg

/-- The branch of the types `i` and `q`, up to the word that is emitted. -/
def parseInteger (option : OptionData) (width : ℕ) (exeName base : List UInt8) :
    Except (List UInt8) ℕ :=
  let negative := base.head? = some (code '-')
  let arg := if base.head? = some (code '-') ∨ base.head? = some (code '+') then base.tail else base
  if arg = [] then .error (exeName ++ codes ": '" ++ base ++ codes "' is not a valid integer\n")
  else (parseDigits exeName base (2 ^ width - 1) 0 arg).bind fun value =>
    if negative ∧ value >>> (width - 1) ≠ 0 then
      .error (exeName ++ codes ": integer underflow: '" ++ base ++ codes "'\n")
    else if ¬option.has optionDataFlagSigned ∧ negative then
      .error (exeName ++ codes ": option '" ++ option.group.name ++
        codes "' requires an unsigned integer\n")
    else if ¬option.has optionDataFlagNonzero ∧ value = 0 then
      .error (exeName ++ codes ": option '" ++ option.group.name ++
        codes "' requires a nonzero integer\n")
    else .ok (if negative then (2 ^ 64 - value) % 2 ^ 64 else value)

/-- The word of a type, or the message. -/
def emitInteger (option : OptionData) (word : ℕ → Value) :
    Except (List UInt8) ℕ → Option Parsed
  | .error message => some ⟨false, option, message⟩
  | .ok value => (optionEmitData option (word value)).map fun option => ⟨true, option, []⟩

/-- `_parse_option`; the types without a value have no argument. -/
def parseOption (option : Option OptionData) (exeName : List UInt8)
    (optionName : Option (List UInt8)) (arg : List UInt8) : Option Parsed :=
  match option with
  | none => some ⟨false, none,
      exeName ++ codes ": unknown option '" ++ optionName.getD arg ++ codes "'\n"⟩
  | some option =>
    let option := option.see
    match option.type with
    | .s => (optionEmitData option (.str arg)).map fun option => ⟨true, option, []⟩
    | .n => some ⟨true, option.setValue (.bool false), []⟩
    | .y => some ⟨true, option.setValue (.bool true), []⟩
    | .i => emitInteger option (fun value => .u32 (value % 2 ^ 32))
        (parseInteger option 32 exeName arg)
    | .q => emitInteger option .u64 (parseInteger option 64 exeName arg)
    | .a | .b | .f | .d => some ⟨false, option,
        codes "<UNIMPLEMENTED:'" ++ arg ++ codes "':'" ++ option.name ++ codes "','" ++
          [code option.type.char] ++ codes "',0x" ++ Format.sysNumbers.base16Int option.flags ++
          codes ">\n"⟩

/-! ### What an argument says -/

def IsDigit (c : UInt8) : Prop := code '0' ≤ c ∧ c ≤ code '9'

/-- The digits, behind those of a number. -/
def decimalFrom (v : ℕ) (digits : List UInt8) : ℕ :=
  digits.foldl (fun v c => v * 10 + (c.toNat - 48)) v

/-- The argument is a sign, if any, and one or more digits. -/
def IsNumeral (arg : List UInt8) (negative : Bool) (digits : List UInt8) : Prop :=
  digits ≠ [] ∧ (∀ c ∈ digits, IsDigit c) ∧
    (arg = (if negative then code '-' else code '+') :: digits ∨ negative = false ∧ arg = digits)

/-- The integer that an argument says. -/
def Says (arg : List UInt8) (v : ℤ) : Prop :=
  ∃ negative digits, IsNumeral arg negative digits ∧
    v = if negative then -(decimalFrom 0 digits : ℤ) else decimalFrom 0 digits

def width : OptionType → ℕ
  | .i => 32
  | _ => 64

/-- The integer may be given to the option. -/
def Allowed (option : OptionData) (v : ℤ) : Prop :=
  v.natAbs < 2 ^ width option.type ∧ (v < 0 → v.natAbs < 2 ^ (width option.type - 1)) ∧
    (v < 0 → option.has optionDataFlagSigned) ∧ (option.has optionDataFlagNonzero → v ≠ 0)

/-- The word of an integer. -/
def word (type : OptionType) (v : ℤ) : Value :=
  match type with
  | .i => .u32 (v % 2 ^ 32).toNat
  | _ => .u64 (v % 2 ^ 64).toNat

/-- The value is stored and nothing else. -/
def Stored (accumulate : Bool) (value : Value) (t t' : Target) : Prop :=
  if accumulate then
    t'.value = t.value ∧ t'.length.toNat = t.length.toNat + 1 ∧ t'.array.size = t'.length.toNat ∧
      t'.array.text t'.length.toNat = t.array.text t.length.toNat ++ [value]
  else t' = { t with value }

/-- The option accepts the integers that it may be given, and stores their words. -/
def ParsedExactly (option : OptionData) (exeName : List UInt8) (optionName : Option (List UInt8))
    (arg : List UInt8) : Prop :=
  ∃ accepted t printed, parseOption (some option) exeName optionName arg =
      some ⟨accepted, some { option.see with target := t }, printed⟩ ∧
    (accepted = true ↔ ∃ v, Says arg v ∧ Allowed option v) ∧
    (accepted = false → t = option.target) ∧
    (accepted = true → ∀ v, Says arg v →
      Stored (option.has optionDataFlagAccumulate) (word option.type v) option.target t)

/-- No partial value is less than the one before it, modulo the word. -/
def Steady (w v : ℕ) (digits : List UInt8) : Prop :=
  ∀ k < digits.length, decimalFrom v (digits.take k) % 2 ^ w ≤
    decimalFrom v (digits.take (k + 1)) % 2 ^ w

/-- What the checks of the option see of a numeral: its value modulo the word. -/
structure Passes (option : OptionData) (negative : Bool) (n : ℕ) : Prop where
  positive : 0 < n
  signed : negative = true → option.has optionDataFlagSigned
  half : negative = true → n < 2 ^ (width option.type - 1)

/-- The arguments that are parsed exactly. -/
structure Sound (option : OptionData) (negative : Bool) (digits : List UInt8) : Prop where
  zero : decimalFrom 0 digits = 0 →
    option.has optionDataFlagNonzero ∧ negative = true ∧ ¬option.has optionDataFlagSigned
  overflow : 2 ^ width option.type ≤ decimalFrom 0 digits →
    Steady (width option.type) 0 digits →
    ¬Passes option negative (decimalFrom 0 digits % 2 ^ width option.type)
  room : decimalFrom 0 digits < 2 ^ width option.type →
    Passes option negative (decimalFrom 0 digits) →
    option.has optionDataFlagAccumulate → option.target.length.toNat + 1 < 2 ^ 32

section

variable {option : OptionData} {arg digits exeName base : List UInt8}
  {optionName : Option (List UInt8)} {negative : Bool} {w v n x : ℕ} {c : UInt8}

/-! ### The digits -/

lemma decimalFrom_cons (v : ℕ) (c : UInt8) (digits : List UInt8) :
    decimalFrom v (c :: digits) = decimalFrom (v * 10 + (c.toNat - 48)) digits := by
  simp only [decimalFrom, List.foldl_cons]

lemma le_decimalFrom (v : ℕ) (digits : List UInt8) : v ≤ decimalFrom v digits := by
  induction digits generalizing v with
  | nil => exact le_rfl
  | cons c digits ih => exact (show v ≤ v * 10 + (c.toNat - 48) by omega).trans (ih _)

lemma steady_cons : Steady w v (c :: digits) ↔
    v % 2 ^ w ≤ (v * 10 + (c.toNat - 48)) % 2 ^ w ∧ Steady w (v * 10 + (c.toNat - 48)) digits := by
  constructor
  · intro h
    exact ⟨h 0 (Nat.succ_pos _), fun k hk => h (k + 1) (Nat.succ_lt_succ hk)⟩
  · rintro ⟨hhead, htail⟩ k hk
    cases k with
    | zero => exact hhead
    | succ k => exact htail k (Nat.lt_of_succ_lt_succ hk)

lemma steady_of_lt (h : decimalFrom v digits < 2 ^ w) : Steady w v digits := by
  induction digits generalizing v with
  | nil => exact fun k hk => absurd hk (Nat.not_lt_zero k)
  | cons c digits ih =>
    have hnext : v * 10 + (c.toNat - 48) < 2 ^ w := (le_decimalFrom _ digits).trans_lt h
    refine steady_cons.mpr ⟨?_, ih h⟩
    rw [Nat.mod_eq_of_lt hnext, Nat.mod_eq_of_lt (by omega)]
    omega

lemma Steady.le (h : Steady w v digits) : v % 2 ^ w ≤ decimalFrom v digits % 2 ^ w := by
  induction digits generalizing v with
  | nil => exact le_rfl
  | cons c digits ih =>
    obtain ⟨hhead, htail⟩ := steady_cons.mp h
    exact hhead.trans (ih htail)

/-- Without an overflow that is seen, the first digit that counts is still there. -/
lemma Steady.pos (hw : 4 ≤ w) (h : Steady w 0 digits) (hdigits : ∀ d ∈ digits, IsDigit d)
    (hvalue : decimalFrom 0 digits ≠ 0) : 0 < decimalFrom 0 digits % 2 ^ w := by
  induction digits with
  | nil => exact absurd rfl hvalue
  | cons c digits ih =>
    obtain ⟨-, htail⟩ := steady_cons.mp h
    rw [List.forall_mem_cons] at hdigits
    rw [decimalFrom_cons, Nat.zero_mul, Nat.zero_add] at hvalue ⊢
    rw [Nat.zero_mul, Nat.zero_add] at htail
    obtain hzero | hpos := Nat.eq_zero_or_pos (c.toNat - 48)
    · rw [hzero] at hvalue htail ⊢
      exact ih htail hdigits.2 hvalue
    · have hnine : c.toNat ≤ 57 := UInt8.le_iff_toNat_le.mp hdigits.1.2
      have hlarge : 2 ^ 4 ≤ 2 ^ w := Nat.pow_le_pow_right (by norm_num) hw
      have hle := htail.le
      rw [Nat.mod_eq_of_lt (by omega)] at hle
      exact hpos.trans_le hle

lemma parseDigits_ok_iff (hw : w ≤ 64) :
    parseDigits exeName base (2 ^ w - 1) (v % 2 ^ w) digits = .ok x ↔
      (∀ c ∈ digits, IsDigit c) ∧ Steady w v digits ∧ x = decimalFrom v digits % 2 ^ w := by
  induction digits generalizing v with
  | nil =>
    rw [parseDigits, Except.ok.injEq]
    exact ⟨fun h => ⟨by simp, fun k hk => absurd hk (Nat.not_lt_zero k), h.symm⟩,
      fun h => h.2.2.symm⟩
  | cons c digits ih =>
    have hstep : (v % 2 ^ w * 10 + (c.toNat - 48)) % 2 ^ 64 &&& (2 ^ w - 1) =
        (v * 10 + (c.toNat - 48)) % 2 ^ w := by
      rw [Nat.and_two_pow_sub_one_eq_mod, Nat.mod_mod_of_dvd _ (Nat.pow_dvd_pow 2 hw), Nat.add_mod,
        Nat.mod_mul_mod, ← Nat.add_mod]
    rw [parseDigits, hstep, List.forall_mem_cons, steady_cons, decimalFrom_cons]
    dsimp only
    split_ifs with hc hlt
    · exact iff_of_false (by simp) fun h =>
        hc.elim (fun hc => UInt8.not_lt.mpr h.1.1.1 hc) fun hc => UInt8.not_lt.mpr h.1.1.2 hc
    · exact iff_of_false (by simp) fun h => not_lt.mpr h.2.1.1 hlt
    · rw [ih]
      rw [not_or, UInt8.not_lt, gt_iff_lt, UInt8.not_lt] at hc
      rw [not_lt] at hlt
      exact ⟨fun h => ⟨⟨hc, h.1⟩, ⟨hlt, h.2.1⟩, h.2.2⟩, fun h => ⟨h.1.2, h.2.1.2, h.2.2⟩⟩

/-! ### The sign -/

instance : DecidablePred IsDigit := fun _ => inferInstanceAs (Decidable (_ ∧ _))

lemma not_isDigit_minus : ¬IsDigit (code '-') := by decide

lemma not_isDigit_plus : ¬IsDigit (code '+') := by decide

lemma isNumeral_iff : IsNumeral base negative digits ↔ digits ≠ [] ∧ (∀ c ∈ digits, IsDigit c) ∧
    negative = decide (base.head? = some (code '-')) ∧
    digits = if base.head? = some (code '-') ∨ base.head? = some (code '+') then base.tail
      else base := by
  refine and_congr_right fun hne => and_congr_right fun hdigits => ?_
  constructor
  · rintro (rfl | ⟨rfl, rfl⟩)
    · cases negative with
      | true => simp
      | false => simp
    · obtain ⟨d, digits, rfl⟩ := List.exists_cons_of_ne_nil hne
      have hd := hdigits d List.mem_cons_self
      have hminus : d ≠ 45 := by
        rintro rfl
        exact not_isDigit_minus hd
      have hplus : d ≠ 43 := by
        rintro rfl
        exact not_isDigit_plus hd
      simp [hminus, hplus]
  · rintro ⟨rfl, rfl⟩
    cases base with
    | nil => exact absurd rfl hne
    | cons d base =>
      by_cases hminus : d = 45
      · exact .inl (by simp [hminus])
      · by_cases hplus : d = 43
        · exact .inl (by simp [hplus])
        · exact .inr (by simp [hminus, hplus])

lemma parseInteger_ok_iff (hw : w ≤ 64) : parseInteger option w exeName base = .ok x ↔
    ∃ negative digits, IsNumeral base negative digits ∧ Steady w 0 digits ∧
      (negative = true → decimalFrom 0 digits % 2 ^ w < 2 ^ (w - 1)) ∧
      (negative = true → option.has optionDataFlagSigned) ∧
      (decimalFrom 0 digits % 2 ^ w = 0 → option.has optionDataFlagNonzero) ∧
      x = if negative then (2 ^ 64 - decimalFrom 0 digits % 2 ^ w) % 2 ^ 64
        else decimalFrom 0 digits % 2 ^ w := by
  have hhalf (m : ℕ) : m >>> (w - 1) ≠ 0 ↔ ¬m < 2 ^ (w - 1) := by
    rw [Nat.shiftRight_eq_div_pow, Ne, Nat.div_eq_zero_iff_lt (by positivity)]
  simp only [isNumeral_iff, parseInteger, hhalf]
  generalize (if base.head? = some (code '-') ∨ base.head? = some (code '+') then base.tail
    else base) = arg
  have hparse (value : ℕ) := @parseDigits_ok_iff arg exeName base w 0 value hw
  rw [Nat.zero_mod] at hparse
  constructor
  · intro h
    by_cases harg : arg = []
    · rw [if_pos harg] at h
      cases h
    rw [if_neg harg] at h
    cases hvalue : parseDigits exeName base (2 ^ w - 1) 0 arg with
    | error message =>
      rw [hvalue] at h
      cases h
    | ok value =>
      obtain ⟨hdigits, hsteady, rfl⟩ := (hparse value).mp hvalue
      refine ⟨_, arg, ⟨harg, hdigits, rfl, rfl⟩, hsteady, ?_⟩
      rw [hvalue, Except.bind] at h
      split_ifs at h with hhalf hsigned hnonzero hnegative
      all_goals
        cases h
        refine ⟨fun hn => not_not.mp fun hne => hhalf ⟨of_decide_eq_true hn, hne⟩,
          fun hn => not_not.mp fun hne => hsigned ⟨hne, of_decide_eq_true hn⟩,
          fun hz => not_not.mp fun hne => hnonzero ⟨hne, hz⟩, ?_⟩
      · exact (if_pos (decide_eq_true hnegative)).symm
      · exact (if_neg fun hn => hnegative (of_decide_eq_true hn)).symm
  · rintro ⟨negative, digits, ⟨harg, hdigits, rfl, rfl⟩, hsteady, hhalf, hsigned, hnonzero, rfl⟩
    rw [if_neg harg, (hparse _).mpr ⟨hdigits, hsteady, rfl⟩, Except.bind,
      if_neg fun h => h.2 (hhalf (decide_eq_true h.1)),
      if_neg fun h => h.1 (hsigned (decide_eq_true h.2)), if_neg fun h => h.1 (hnonzero h.2)]
    simp only [decide_eq_true_eq]

lemma IsNumeral.unique {negative' : Bool} {digits' : List UInt8} (h : IsNumeral arg negative digits)
    (h' : IsNumeral arg negative' digits') : negative' = negative ∧ digits' = digits := by
  obtain ⟨-, -, hnegative, hdigits⟩ := isNumeral_iff.mp h
  obtain ⟨-, -, hnegative', hdigits'⟩ := isNumeral_iff.mp h'
  exact ⟨hnegative'.trans hnegative.symm, hdigits'.trans hdigits.symm⟩

/-! ### Acceptance -/

/-- The checks that the code makes on a numeral. -/
def Accepts (option : OptionData) (negative : Bool) (digits : List UInt8) : Prop :=
  Steady (width option.type) 0 digits ∧
    (negative = true →
      decimalFrom 0 digits % 2 ^ width option.type < 2 ^ (width option.type - 1)) ∧
    (negative = true → option.has optionDataFlagSigned) ∧
    (decimalFrom 0 digits % 2 ^ width option.type = 0 → option.has optionDataFlagNonzero)

lemma four_le_width (type : OptionType) : 4 ≤ width type := by
  cases type <;> decide

lemma width_le (type : OptionType) : width type ≤ 64 := by
  cases type <;> decide

lemma says_iff (h : IsNumeral arg negative digits) {v : ℤ} : Says arg v ↔
    v = if negative then -(decimalFrom 0 digits : ℤ) else decimalFrom 0 digits := by
  constructor
  · rintro ⟨negative', digits', h', rfl⟩
    obtain ⟨rfl, rfl⟩ := h.unique h'
    rfl
  · exact fun hv => ⟨negative, digits, h, hv⟩

lemma allowed_iff : Allowed option (if negative then -(n : ℤ) else n) ↔
    n < 2 ^ width option.type ∧
      (negative = true → 0 < n → n < 2 ^ (width option.type - 1)) ∧
      (negative = true → 0 < n → option.has optionDataFlagSigned) ∧
      (option.has optionDataFlagNonzero → 0 < n) := by
  cases negative with
  | true =>
    have hneg : -(n : ℤ) < 0 ↔ 0 < n := by omega
    have hne : -(n : ℤ) ≠ 0 ↔ 0 < n := by omega
    rw [if_pos rfl, Allowed, hneg, hne, Int.natAbs_neg, Int.natAbs_natCast]
    simp only [forall_const]
  | false =>
    have hneg : ¬(n : ℤ) < 0 := by omega
    have hne : (n : ℤ) ≠ 0 ↔ 0 < n := by omega
    rw [if_neg Bool.false_ne_true, Allowed, hne, Int.natAbs_natCast]
    simp only [hneg, false_imp_iff, Bool.false_eq_true]

/-- A numeral is sound when the checks agree with what is allowed, and there is room. -/
lemma sound_digits_iff (hdigits : ∀ c ∈ digits, IsDigit c) : Sound option negative digits ↔
    (Accepts option negative digits ↔
      Allowed option (if negative then -(decimalFrom 0 digits : ℤ) else decimalFrom 0 digits)) ∧
    (Accepts option negative digits → option.has optionDataFlagAccumulate →
      option.target.length.toNat + 1 < 2 ^ 32) := by
  have hhalf : 0 < 2 ^ (width option.type - 1) := by positivity
  rw [allowed_iff]
  obtain hn | hn := Nat.lt_or_ge (decimalFrom 0 digits) (2 ^ width option.type)
  · have hsteady := steady_of_lt hn
    have hmod := Nat.mod_eq_of_lt hn
    obtain hzero | hpos := Nat.eq_zero_or_pos (decimalFrom 0 digits)
    · constructor
      · intro h
        obtain ⟨hnonzero, hnegative, hsigned⟩ := h.zero hzero
        refine ⟨iff_of_false (fun h => hsigned (h.2.2.1 hnegative)) fun h => ?_,
          fun h => absurd (h.2.2.1 hnegative) hsigned⟩
        exact absurd (h.2.2.2 hnonzero) (by omega)
      · rintro ⟨hagree, -⟩
        have hnonzero : option.has optionDataFlagNonzero := by
          by_contra hnonzero
          have hallowed := hagree.mpr ⟨hn, fun _ h => by omega, fun _ h => by omega,
            fun h => absurd h hnonzero⟩
          exact hnonzero (hallowed.2.2.2 (hmod.trans hzero))
        have hrejected : ¬(negative = true → option.has optionDataFlagSigned) := fun hsigned => by
          have haccepted := hagree.mp ⟨hsteady, fun _ => by rwa [hmod, hzero], hsigned,
            fun _ => hnonzero⟩
          exact absurd (haccepted.2.2.2 hnonzero) (by omega)
        rw [Classical.not_imp] at hrejected
        exact ⟨fun _ => ⟨hnonzero, hrejected⟩, fun h => by omega,
          fun _ h => absurd h.positive (by omega)⟩
    · constructor
      · intro h
        refine ⟨⟨fun h => ⟨hn, fun hneg _ => ?_, fun hneg _ => h.2.2.1 hneg, fun _ => hpos⟩,
          fun h => ⟨hsteady, fun hneg => ?_, fun hneg => h.2.2.1 hneg hpos,
            fun hzero => by omega⟩⟩, fun hacc => h.room hn ⟨hpos, hacc.2.2.1, fun hneg => ?_⟩⟩
        · exact hmod ▸ h.2.1 hneg
        · rw [hmod]
          exact h.2.1 hneg hpos
        · exact hmod ▸ hacc.2.1 hneg
      · rintro ⟨-, hroom⟩
        refine ⟨fun hzero => by omega, fun h => by omega, fun _ hpasses =>
          hroom ⟨hsteady, fun hneg => ?_, hpasses.signed, fun hzero => by omega⟩⟩
        rw [hmod]
        exact hpasses.half hneg
  · have hne : decimalFrom 0 digits ≠ 0 := (lt_of_lt_of_le (by positivity) hn).ne'
    have hpasses (hsteady : Steady (width option.type) 0 digits) :=
      hsteady.pos (four_le_width _) hdigits hne
    constructor
    · intro h
      have hrejected : ¬Accepts option negative digits := fun hacc => h.overflow hn hacc.1
        ⟨hpasses hacc.1, hacc.2.2.1, hacc.2.1⟩
      exact ⟨iff_of_false hrejected fun h => absurd h.1 (by omega), fun h => (hrejected h).elim⟩
    · rintro ⟨hagree, -⟩
      refine ⟨fun hzero => absurd hzero hne, fun _ hsteady h => ?_, fun h => by omega⟩
      have haccepted := hagree.mp
        ⟨hsteady, h.half, h.signed, fun hzero => absurd hzero h.positive.ne'⟩
      exact absurd haccepted.1 (by omega)

/-! ### Storing -/

lemma optionEmitData_room (value : Value)
    (h : option.has optionDataFlagAccumulate → option.target.length.toNat + 1 < 2 ^ 32) :
    ∃ t, optionEmitData option value = some { option with target := t } ∧
      Stored (option.has optionDataFlagAccumulate) value option.target t := by
  rw [optionEmitData]
  cases haccumulate : option.has optionDataFlagAccumulate with
  | false => exact ⟨{ option.target with value }, if_neg Bool.false_ne_true, rfl⟩
  | true =>
    have hlength : (option.target.length + 1).toNat = option.target.length.toNat + 1 := by
      rw [UInt32.toNat_add]
      exact Nat.mod_eq_of_lt (h haccumulate)
    have hlast : (option.target.length + 1 - 1).toNat = option.target.length.toNat := by
      rw [UInt32.add_sub_cancel]
    refine ⟨⟨option.target.value, (Block.mk (option.target.length + 1).toNat
      option.target.array.data).set option.target.length.toNat value,
      option.target.length + 1⟩, ?_, ?_⟩
    · rw [if_pos rfl]
      dsimp only
      rw [hlast, Block.write_eq (by rw [hlength]; exact Nat.lt_succ_self _)]
      rfl
    · refine ⟨rfl, hlength, rfl, ?_⟩
      rw [hlength, Block.text, List.range_succ, List.map_append, List.map_singleton,
        Block.data_set_self]
      refine congrArg (· ++ [value]) (List.map_congr_left fun k hk => ?_)
      exact Block.data_set_of_ne (List.mem_range.mp hk).ne _

lemma optionEmitData_full (value : Value) (haccumulate : option.has optionDataFlagAccumulate)
    (h : ¬option.target.length.toNat + 1 < 2 ^ 32) : optionEmitData option value = none := by
  have hlength : option.target.length + 1 = 0 := by
    have hlt := option.target.length.toNat_lt
    refine UInt32.toNat_inj.mp ?_
    rw [UInt32.toNat_add, show option.target.length.toNat = 2 ^ 32 - 1 by omega]
    rfl
  rw [optionEmitData, if_pos haccumulate, hlength]
  rfl

lemma word_eq (type : OptionType) (htype : type = .i ∨ type = .q) :
    (if type = .i then fun x => Value.u32 (x % 2 ^ 32) else .u64)
      (if negative then (2 ^ 64 - n % 2 ^ width type) % 2 ^ 64 else n % 2 ^ width type) =
    word type (if negative then -(n : ℤ) else n) := by
  rcases htype with rfl | rfl
  · refine congrArg Value.u32 ?_
    cases negative with
    | true =>
      rw [if_pos rfl, if_pos rfl, width]
      omega
    | false =>
      rw [if_neg Bool.false_ne_true, if_neg Bool.false_ne_true, width]
      omega
  · refine congrArg Value.u64 ?_
    cases negative with
    | true =>
      rw [if_pos rfl, if_pos rfl, show width .q = 64 from rfl]
      omega
    | false =>
      rw [if_neg Bool.false_ne_true, if_neg Bool.false_ne_true, show width .q = 64 from rfl]
      omega

lemma parseOption_eq (htype : option.type = .i ∨ option.type = .q) :
    parseOption (some option) exeName optionName arg =
      emitInteger option.see (if option.type = .i then fun x => Value.u32 (x % 2 ^ 32) else .u64)
        (parseInteger option.see (width option.type) exeName arg) := by
  rw [parseOption]
  rcases htype with htype | htype
  · simp only [htype, OptionData.see]
    rfl
  · simp only [htype, OptionData.see]
    rfl

end

/-- **Integer options.** An argument is parsed exactly unless it is a zero that the code would not
reject anyway, its overflow is not seen and the rest passes the checks, or the array is full. -/
theorem parsedExactly_iff {option : OptionData} (htype : option.type = .i ∨ option.type = .q)
    (exeName : List UInt8) (optionName : Option (List UInt8)) (arg : List UInt8) :
    ParsedExactly option exeName optionName arg ↔
      ∀ negative digits, IsNumeral arg negative digits → Sound option negative digits := by
  have hparse (x : ℕ) :=
    @parseInteger_ok_iff option.see exeName arg (width option.type) x (width_le _)
  rw [ParsedExactly, parseOption_eq htype]
  cases hresult : parseInteger option.see (width option.type) exeName arg with
  | error message =>
    have hrejected : ∀ negative digits, IsNumeral arg negative digits →
        ¬Accepts option negative digits := fun negative digits hnumeral haccepts => by
      have hok := (hparse _).mpr ⟨negative, digits, hnumeral, haccepts.1, haccepts.2.1,
        haccepts.2.2.1, haccepts.2.2.2, rfl⟩
      rw [hresult] at hok
      cases hok
    constructor
    · rintro ⟨accepted, t, printed, hparsed, hiff, -, -⟩ negative digits hnumeral
      cases hparsed
      refine (sound_digits_iff hnumeral.2.1).mpr
        ⟨iff_of_false (hrejected _ _ hnumeral) fun hallowed => ?_,
        fun haccepts => absurd haccepts (hrejected _ _ hnumeral)⟩
      exact Bool.false_ne_true (hiff.mpr ⟨_, (says_iff hnumeral).mpr rfl, hallowed⟩)
    · intro h
      refine ⟨false, option.target, message, rfl, iff_of_false Bool.false_ne_true ?_,
        fun _ => rfl, fun h => absurd h Bool.false_ne_true⟩
      rintro ⟨v, ⟨negative, digits, hnumeral, rfl⟩, hallowed⟩
      exact hrejected _ _ hnumeral
        (((sound_digits_iff hnumeral.2.1).mp (h _ _ hnumeral)).1.mpr hallowed)
  | ok x =>
    obtain ⟨negative, digits, hnumeral, hsteady, hhalf, hsigned, hnonzero, rfl⟩ :=
      (hparse x).mp hresult
    have haccepts : Accepts option negative digits := ⟨hsteady, hhalf, hsigned, hnonzero⟩
    by_cases hroom : option.has optionDataFlagAccumulate → option.target.length.toNat + 1 < 2 ^ 32
    · obtain ⟨t, hemit, hstored⟩ := @optionEmitData_room option.see (word option.type
        (if negative then -(decimalFrom 0 digits : ℤ) else decimalFrom 0 digits)) hroom
      rw [emitInteger, word_eq _ htype, hemit]
      constructor
      · rintro ⟨accepted, t', printed, hparsed, hiff, -, -⟩ negative' digits' hnumeral'
        obtain ⟨rfl, rfl⟩ := hnumeral.unique hnumeral'
        cases hparsed
        obtain ⟨v, hv, hallowed⟩ := hiff.mp rfl
        rw [says_iff hnumeral] at hv
        exact (sound_digits_iff hnumeral.2.1).mpr
          ⟨iff_of_true haccepts (hv ▸ hallowed), fun _ => hroom⟩
      · intro h
        refine ⟨true, t, [], rfl, iff_of_true rfl ⟨_, (says_iff hnumeral).mpr rfl,
          ((sound_digits_iff hnumeral.2.1).mp (h _ _ hnumeral)).1.mp haccepts⟩,
          fun h => absurd h.symm Bool.false_ne_true,
          fun _ v hv => ?_⟩
        rw [(says_iff hnumeral).mp hv]
        exact hstored
    · refine iff_of_false ?_ fun h => ?_
      · rintro ⟨accepted, t, printed, hparsed, -⟩
        rw [Classical.not_imp] at hroom
        rw [emitInteger, @optionEmitData_full option.see _ hroom.1 hroom.2] at hparsed
        cases hparsed
      · exact hroom (((sound_digits_iff hnumeral.2.1).mp (h _ _ hnumeral)).2 haccepts)

/-- An option of 32 bits without flags. -/
def plain : OptionData :=
  ⟨⟨false, codes "size"⟩, .i, 0, codes "size", ⟨.u32 0, ⟨0, fun _ => .u32 0⟩, 0⟩⟩

/-- A value of more than 32 bits is accepted, and stored without its upper bits. -/
theorem parsedExactly_fails : ¬ParsedExactly plain (codes "tool") none (codes "6000000000") := by
  rintro ⟨accepted, t, printed, hparsed, hiff, -, -⟩
  obtain ⟨v, ⟨negative, digits, hnumeral, rfl⟩, hallowed⟩ := hiff.mp (by
    have haccepted : (parseOption (some plain) (codes "tool") none (codes "6000000000")).map
        Parsed.accepted = some true := by decide +kernel
    rw [hparsed] at haccepted
    exact Option.some.inj haccepted)
  obtain ⟨rfl, rfl⟩ := IsNumeral.unique
    (show IsNumeral (codes "6000000000") false (codes "6000000000") by
      exact ⟨by decide, by decide +kernel, .inr ⟨rfl, rfl⟩⟩) hnumeral
  exact absurd hallowed.1 (by decide +kernel)

theorem parsedExactly_iff_plain : ParsedExactly plain (codes "tool") none (codes "12") ↔
    ∀ negative digits, IsNumeral (codes "12") negative digits → Sound plain negative digits :=
  parsedExactly_iff (.inl rfl) _ _ _

end KernelModel.Options
