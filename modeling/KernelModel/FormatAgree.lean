import KernelModel.Format

/-!
The kernel and the library format alike.

Both write the same digits, so both add the same characters. Of these the kernel writes the ones
that do not fit over the last position, which the end of the text takes in the end; the library
leaves them out and stops.
-/

namespace KernelModel.Format

/-! ### Arguments that match -/

def wordConversions : List UInt8 := codes "cduxXvpI"

/-- What a conversion that both formatters know wants. -/
inductive Wants : UInt8 → Arg → Prop
  | word {c : UInt8} (value : ℕ) : c ∈ wordConversions → Wants c (.word value)
  | string (text : Option (List UInt8)) : Wants (code 's') (.string text)
  | uuid (b : List UInt8) : b.length = 16 → Wants (code 'g') (.bytes b)
  | macAddress (b : List UInt8) : b.length = 6 → Wants (code 'M') (.bytes b)

/-- The arguments are what the conversions of the template want. -/
inductive Matches : List UInt8 → List Arg → Prop
  | nil (args : List Arg) : Matches [] args
  | text {c : UInt8} {template : List UInt8} {args : List Arg} :
      c ≠ code '%' → Matches template args → Matches (c :: template) args
  | unfinished {template : List UInt8} (args : List Arg) :
      readFlags .int template = none → Matches (code '%' :: template) args
  | conversion {template rest : List UInt8} {arg : Arg} {args : List Arg} {size : Size}
      {c : UInt8} :
      readFlags .int template = some (size, c, rest) → Wants c arg → Matches rest args →
        Matches (code '%' :: template) (arg :: args)

/-! ### The same characters -/

lemma base16Digits_eq {data : ℕ} (h : data ≠ 0) : base16Digits data = sysBase16Digits data := by
  induction data using Nat.strong_induction_on with
  | _ data ih =>
    rw [base16Digits, sysBase16Digits, if_neg h]
    by_cases hlast : data / 16 = 0
    · rw [if_pos hlast, hlast, sysBase16Digits, if_pos rfl]
    · rw [if_neg hlast, ih (data / 16) (by omega) hlast]

lemma base10Int_eq : kernelNumbers.base10Int = sysNumbers.base10Int := by
  funext value
  simp [kernelNumbers, sysNumbers, sysFormatBase10Int]

lemma base16Int_eq {data : ℕ} (h : data ≠ 0) :
    kernelNumbers.base16Int data = sysNumbers.base16Int data :=
  congrArg List.reverse (base16Digits_eq h)

lemma formatInt_eq (sign hex : Bool) (size : Size) (word : ℕ) :
    formatInt kernelNumbers sign hex size word = formatInt sysNumbers sign hex size word := by
  rw [formatInt, formatInt, base10Int_eq]
  generalize (if sign then (signedData size word).natAbs else unsignedData size word) = data
  by_cases hdata : data = 0
  · simp only [if_pos hdata]
  · simp only [if_neg hdata, base16Int_eq hdata]

/-- **Both formatters** add the same characters for a conversion. -/
lemma convert_eq : convert kernelNumbers = convert sysNumbers := by
  funext size c args
  simp only [convert, formatInt_eq, formatSize, formatIp4, base10Int_eq]

lemma convert_wants (n : Numbers) (size : Size) {c : UInt8} {arg : Arg} (h : Wants c arg)
    (args : List Arg) : ∃ text, convert n size c (arg :: args) = some (text, args) := by
  cases h with
  | word value hc =>
    have hcases : c = code 'c' ∨ c = code 'd' ∨ c = code 'u' ∨ c = code 'x' ∨ c = code 'X' ∨
        c = code 'v' ∨ c = code 'p' ∨ c = code 'I' := by
      simpa [wordConversions, codes] using hc
    rcases hcases with rfl | rfl | rfl | rfl | rfl | rfl | rfl | rfl <;> exact ⟨_, rfl⟩
  | string text => exact ⟨_, rfl⟩
  | uuid b => exact ⟨_, rfl⟩
  | macAddress b => exact ⟨_, rfl⟩

/-! ### The same buffer -/

/-- The two buffers agree but for the last position, once it is reached. -/
structure Agree (k u : BufferState) : Prop where
  length : k.length = u.length
  offset : k.offset = u.offset
  offset_le : u.offset ≤ u.length
  buffer : ∀ i, i ≠ u.offset ∨ u.offset < u.length → k.buffer i = u.buffer i

variable {k u : BufferState}

lemma agree_add (h : Agree k u) (c : UInt8) : Agree (add k c) (sysAdd u c) := by
  have hle := h.offset_le
  rw [sysAdd]
  by_cases hfull : u.offset ≥ u.length
  · have hkfull : ¬k.offset < k.length := by
      rw [h.length, h.offset]
      omega
    rw [if_pos hfull, add, if_neg hkfull, Nat.add_zero]
    refine ⟨h.length, h.offset, h.offset_le, fun i hi => ?_⟩
    have hne : i ≠ k.offset := by
      rw [h.offset]
      omega
    exact (Function.update_of_ne hne _ _).trans (h.buffer i hi)
  · have hkroom : k.offset < k.length := by
      rw [h.length, h.offset]
      omega
    rw [if_neg hfull, add, if_pos hkroom]
    refine ⟨h.length, congrArg (· + 1) h.offset, by simp only; omega, fun i _ => ?_⟩
    by_cases hi : i = u.offset
    · show Function.update k.buffer k.offset c i = Function.update u.buffer u.offset c i
      rw [hi, h.offset, Function.update_self, Function.update_self]
    · have hk : i ≠ k.offset := h.offset ▸ hi
      exact (Function.update_of_ne hk _ _).trans
        ((h.buffer i (.inl hi)).trans (Function.update_of_ne hi _ _).symm)

lemma agree_text (h : Agree k u) (text : List UInt8) :
    Agree (text.foldl add k) (text.foldl sysAdd u) := by
  induction text generalizing k u with
  | nil => exact h
  | cons c text ih => exact ih (agree_add h c)

/-- What the library does not write any more, the kernel writes over the last position. -/
lemma agree_full (h : Agree k u) (hfull : u.offset ≥ u.length) (text : List UInt8) :
    Agree (text.foldl add k) u := by
  have hsys : text.foldl sysAdd u = u := by
    induction text with
    | nil => rfl
    | cons c text ih => rw [List.foldl_cons, sysAdd, if_pos hfull, ih]
  have hagree := agree_text h text
  rwa [hsys] at hagree

lemma Agree.finish_eq (h : Agree k u) : k.finish = u.finish := by
  rw [BufferState.finish, BufferState.finish, h.offset, Prod.mk.injEq]
  refine ⟨rfl, funext fun i => ?_⟩
  by_cases hi : i = u.offset
  · rw [hi, Function.update_self, Function.update_self]
  · rw [Function.update_of_ne hi, Function.update_of_ne hi]
    exact h.buffer i (.inl hi)

/-! ### The loops -/

section

variable {template rest : List UInt8} {args args' : List Arg} {size : Size} {c : UInt8}
  {text : List UInt8}

lemma formatLoop_text (hc : c ≠ code '%') :
    formatLoop (c :: template) args k = formatLoop template args (add k c) := by
  rw [formatLoop.eq_def]
  simp only [if_pos hc]

lemma formatLoop_unfinished (h : readFlags .int template = none) :
    formatLoop (code '%' :: template) args k = some k := by
  rw [formatLoop.eq_def]
  simp only [ne_eq, not_true_eq_false, if_false]
  split
  · rfl
  · rename_i hflags
    rw [h] at hflags
    cases hflags

lemma formatLoop_conversion (h : readFlags .int template = some (size, c, rest))
    (hconvert : convert kernelNumbers size c args = some (text, args')) :
    formatLoop (code '%' :: template) args k = formatLoop rest args' (text.foldl add k) := by
  rw [formatLoop.eq_def]
  simp only [ne_eq, not_true_eq_false, if_false]
  split
  · rename_i hflags
    rw [h] at hflags
    cases hflags
  · rename_i hflags
    rw [h] at hflags
    cases hflags
    rw [hconvert, Option.bind_some]

lemma sysFormatLoop_full (hfull : u.offset ≥ u.length) :
    sysFormatLoop template args u = some u := by
  cases template with
  | nil => rw [sysFormatLoop]
  | cons c template => rw [sysFormatLoop, if_pos hfull]

variable (hroom : ¬u.offset ≥ u.length)
include hroom

lemma sysFormatLoop_text (hc : c ≠ code '%') :
    sysFormatLoop (c :: template) args u = sysFormatLoop template args (sysAdd u c) := by
  rw [sysFormatLoop.eq_def]
  simp only [if_neg hroom, if_pos hc]

lemma sysFormatLoop_unfinished (h : readFlags .int template = none) :
    sysFormatLoop (code '%' :: template) args u = some u := by
  rw [sysFormatLoop.eq_def]
  simp only [if_neg hroom, ne_eq, not_true_eq_false, if_false]
  split
  · rfl
  · rename_i hflags
    rw [h] at hflags
    cases hflags

lemma sysFormatLoop_conversion (h : readFlags .int template = some (size, c, rest))
    (hconvert : convert sysNumbers size c args = some (text, args')) :
    sysFormatLoop (code '%' :: template) args u =
      sysFormatLoop rest args' (text.foldl sysAdd u) := by
  rw [sysFormatLoop.eq_def]
  simp only [if_neg hroom, ne_eq, not_true_eq_false, if_false]
  split
  · rename_i hflags
    rw [h] at hflags
    cases hflags
  · rename_i hflags
    rw [h] at hflags
    cases hflags
    rw [hconvert, Option.bind_some]

end

variable {template : List UInt8} {args : List Arg}

lemma formatLoop_full (hm : Matches template args) (h : Agree k u)
    (hfull : u.offset ≥ u.length) : ∃ k', formatLoop template args k = some k' ∧ Agree k' u := by
  induction hm generalizing k with
  | nil args => exact ⟨k, by rw [formatLoop], h⟩
  | @text c template args hc _ ih =>
    rw [formatLoop_text hc]
    exact ih (agree_full h hfull [c])
  | unfinished args hflags => exact ⟨k, formatLoop_unfinished hflags, h⟩
  | @conversion _ _ _ args size _ hflags hwants _ ih =>
    obtain ⟨text, hconvert⟩ := convert_wants kernelNumbers size hwants args
    rw [formatLoop_conversion hflags hconvert]
    exact ih (agree_full h hfull text)

lemma formatLoop_agree (hm : Matches template args) (h : Agree k u) :
    ∃ k' u', formatLoop template args k = some k' ∧ sysFormatLoop template args u = some u' ∧
      Agree k' u' := by
  induction hm generalizing k u with
  | nil args => exact ⟨k, u, by rw [formatLoop], by rw [sysFormatLoop], h⟩
  | @text c template args hc hm ih =>
    by_cases hfull : u.offset ≥ u.length
    · obtain ⟨k', hk', h'⟩ := formatLoop_full (hm.text hc) h hfull
      exact ⟨k', u, hk', sysFormatLoop_full hfull, h'⟩
    · rw [formatLoop_text hc, sysFormatLoop_text hfull hc]
      exact ih (agree_add h c)
  | unfinished args hflags =>
    refine ⟨k, u, formatLoop_unfinished hflags, ?_, h⟩
    by_cases hfull : u.offset ≥ u.length
    · exact sysFormatLoop_full hfull
    · exact sysFormatLoop_unfinished hfull hflags
  | @conversion _ _ _ args size _ hflags hwants hm ih =>
    by_cases hfull : u.offset ≥ u.length
    · obtain ⟨k', hk', h'⟩ := formatLoop_full (hm.conversion hflags hwants) h hfull
      exact ⟨k', u, hk', sysFormatLoop_full hfull, h'⟩
    · obtain ⟨text, hconvert⟩ := convert_wants kernelNumbers size hwants args
      have hsys := (congrFun (congrFun (congrFun convert_eq _) _) _).symm.trans hconvert
      rw [formatLoop_conversion hflags hconvert, sysFormatLoop_conversion hfull hflags hsys]
      exact ih (agree_text h text)

/-! ### The whole text -/

/-- **Kernel and library** return the same length and leave the same buffer. -/
theorem formatStringVa_eq_sysFormatStringVa (hm : Matches template args) (buffer : ℕ → UInt8)
    (length : ℕ) :
    ∃ r, formatStringVa buffer length template args = some r ∧
      sysFormatStringVa buffer length template args = some r := by
  rw [formatStringVa, sysFormatStringVa]
  by_cases hlength : length = 0
  · exact ⟨(0, buffer), if_pos hlength, if_pos hlength⟩
  · have hstart : Agree ⟨buffer, 0, length - 1⟩ ⟨buffer, 0, length - 1⟩ :=
      ⟨rfl, rfl, Nat.zero_le _, fun _ _ => rfl⟩
    obtain ⟨k, u, hk, hu, h⟩ := formatLoop_agree hm hstart
    refine ⟨u.finish, ?_, ?_⟩
    · rw [if_neg hlength, hk, Option.map_some, h.finish_eq]
    · rw [if_neg hlength, hu, Option.map_some]

/-- `"-%hhd%s"`, in a buffer that is too small. -/
theorem formatStringVa_eq_minusOne :
    ∃ r, formatStringVa (fun _ => 0) 5 ([45, 37, 104, 104, 100, 37, 115] : List UInt8)
          [.word 255, .string none] = some r ∧
      sysFormatStringVa (fun _ => 0) 5 ([45, 37, 104, 104, 100, 37, 115] : List UInt8)
          [.word 255, .string none] = some r := by
  have hd : readFlags .int ([104, 104, 100, 37, 115] : List UInt8) =
      some (.shortShort, code 'd', [37, 115]) := by
    simp [readFlags]
  have hs : readFlags .int ([115] : List UInt8) = some (.int, code 's', []) := by
    simp [readFlags]
  exact formatStringVa_eq_sysFormatStringVa
    (.text (by decide)
      (.conversion hd (.word 255 (by decide)) (.conversion hs (.string none) (.nil [])))) _ _

end KernelModel.Format
