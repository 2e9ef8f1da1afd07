import KernelModel.FormatAgree

/-!
Text in a buffer that is too small.

All conversions of the kernel's formatter, those for network addresses too. What a template adds
does not depend on the buffer; a buffer of `length` bytes holds the first `length - 1` characters
of it, and nothing behind these bytes changes.
-/

namespace KernelModel.Format

/-! ### Network addresses -/

/-- Word `i` of an address, in the byte order of the machine. -/
def ip6Word (b : List UInt8) (i : ℕ) : ℕ :=
  (b.getD (2 * i) 0).toNat + 256 * (b.getD (2 * i + 1) 0).toNat

section

variable (ip6 : ℕ → ℕ)

/-- `for (;j<8&&!ip6[j];j++);` -/
def zeroEnd (j : ℕ) : ℕ :=
  if j < 8 ∧ ip6 j = 0 then zeroEnd (j + 1) else j
termination_by 8 - j

lemma le_zeroEnd (j : ℕ) : j ≤ zeroEnd ip6 j := by
  induction j using zeroEnd.induct ip6 with
  | case1 j h ih =>
    rw [zeroEnd, if_pos h]
    exact (Nat.le_succ j).trans ih
  | case2 j h => rw [zeroEnd, if_neg h]

/-- The first of the longest runs of zero words from `i` on, with its length. -/
def contraction (i contractionIndex contractionLength : ℕ) : ℕ × ℕ :=
  if 8 ≤ i then (contractionIndex, contractionLength)
  else if ip6 i ≠ 0 then contraction (i + 1) contractionIndex contractionLength
  else
    let j := zeroEnd ip6 (i + 1)
    if j - i > contractionLength then contraction j i (j - i)
    else contraction j contractionIndex contractionLength
termination_by 8 - i
decreasing_by
  · omega
  all_goals
    have hj := le_zeroEnd ip6 (i + 1)
    omega

/-- The words from `i` on, the contracted ones as two colons. -/
def contractedWords (n : Numbers) (contractionIndex contractionLength i : ℕ)
    (needSeparator : Bool) : List UInt8 :=
  if 8 ≤ i then []
  else if i = contractionIndex then
    codes "::" ++ contractedWords n contractionIndex contractionLength
      (i + (contractionLength - 1) + 1) false
  else
    (if needSeparator then [code ':'] else []) ++ n.base16Int (ip6 i) ++
      contractedWords n contractionIndex contractionLength (i + 1) true
termination_by 8 - i

end

/-- The address of `%j`. -/
def formatContractedIp6 (n : Numbers) (b : List UInt8) : List UInt8 :=
  let (contractionIndex, contractionLength) := contraction (ip6Word b) 0 0xff 0
  contractedWords (ip6Word b) n contractionIndex contractionLength 0 false

/-- The address of `%J`. -/
def formatIp6 (n : Numbers) (b : List UInt8) : List UInt8 :=
  (List.range 8).flatMap fun i =>
    (if i ≠ 0 then [code ':'] else []) ++ n.base16Int (ip6Word b i)

/-- The characters that a conversion of the kernel adds, and the arguments behind it. -/
def kernelConvert (size : Size) (c : UInt8) (args : List Arg) : Option (List UInt8 × List Arg) :=
  if c = code 'j' then
    (nextBytes args).map fun (ip6, args) => (formatContractedIp6 kernelNumbers ip6, args)
  else if c = code 'J' then
    (nextBytes args).map fun (ip6, args) => (formatIp6 kernelNumbers ip6, args)
  else if c ∈ singleSided then some ([code '%', c], args)
  else convert kernelNumbers size c args

/-- `"::1"` -/
example : (contraction (ip6Word (List.replicate 15 0 ++ [1])) 0 0xff 0) = (0, 7) := by
  simp [contraction, zeroEnd, ip6Word]

/-! ### The template -/

/-- The loop over the template, with all conversions of the kernel. -/
def kernelFormatLoop (template : List UInt8) (args : List Arg) (out : BufferState) :
    Option BufferState :=
  match template with
  | [] => some out
  | c :: template =>
    if c ≠ code '%' then kernelFormatLoop template args (add out c)
    else
      match _h : readFlags .int template with
      | none => some out
      | some (size, c, rest) =>
        (kernelConvert size c args).bind fun (text, args) =>
          kernelFormatLoop rest args (text.foldl add out)
termination_by template.length
decreasing_by
  · exact Nat.lt_succ_self _
  · exact (readFlags_length _h).trans (Nat.lt_succ_self _)

/-- `format_string_va`, with all conversions of the kernel. -/
def kernelFormatStringVa (buffer : ℕ → UInt8) (length : ℕ) (template : List UInt8)
    (args : List Arg) : Option (ℕ × (ℕ → UInt8)) :=
  if length = 0 then some (0, buffer)
  else (kernelFormatLoop template args ⟨buffer, 0, length - 1⟩).map BufferState.finish

/-- What a template adds, with no buffer in sight. -/
def formatText (template : List UInt8) (args : List Arg) : Option (List UInt8) :=
  match template with
  | [] => some []
  | c :: template =>
    if c ≠ code '%' then (formatText template args).map (c :: ·)
    else
      match _h : readFlags .int template with
      | none => some []
      | some (size, c, rest) =>
        (kernelConvert size c args).bind fun (text, args) =>
          (formatText rest args).map (text ++ ·)
termination_by template.length
decreasing_by
  · exact Nat.lt_succ_self _
  · exact (readFlags_length _h).trans (Nat.lt_succ_self _)

section

variable {template rest : List UInt8} {args args' : List Arg} {size : Size} {c : UInt8}
  {text : List UInt8}

lemma formatText_unfinished (h : readFlags .int template = none) :
    formatText (code '%' :: template) args = some [] := by
  rw [formatText.eq_def]
  simp only [ne_eq, not_true_eq_false, if_false]
  split
  · rfl
  · rename_i hflags
    rw [h] at hflags
    cases hflags

lemma formatText_conversion (h : readFlags .int template = some (size, c, rest))
    (hconvert : kernelConvert size c args = some (text, args')) :
    formatText (code '%' :: template) args = (formatText rest args').map (text ++ ·) := by
  rw [formatText.eq_def]
  simp only [ne_eq, not_true_eq_false, if_false]
  split
  · rename_i hflags
    rw [h] at hflags
    cases hflags
  · rename_i hflags
    rw [h] at hflags
    cases hflags
    rw [hconvert, Option.bind_some]

end

lemma kernelFormatLoop_eq (template : List UInt8) (args : List Arg) (out : BufferState) :
    kernelFormatLoop template args out =
      (formatText template args).map fun text => text.foldl add out := by
  induction template, args, out using kernelFormatLoop.induct with
  | case1 args out => rw [kernelFormatLoop, formatText, Option.map_some, List.foldl_nil]
  | case2 args out c template hc ih =>
    rw [kernelFormatLoop, formatText, if_pos hc, if_pos hc, ih, Option.map_map]
    rfl
  | case3 args out c template hc hflags =>
    rw [kernelFormatLoop.eq_def, formatText.eq_def]
    simp only [if_neg hc]
    split
    · rfl
    · rename_i h
      rw [hflags] at h
      cases h
  | case4 args out c template hc size d rest hflags ih =>
    rw [kernelFormatLoop.eq_def, formatText.eq_def]
    simp only [if_neg hc]
    split
    · rename_i h
      rw [hflags] at h
      cases h
    · rename_i h
      rw [hflags] at h
      cases h
      cases kernelConvert size d args with
      | none => rfl
      | some converted =>
        obtain ⟨text, args'⟩ := converted
        rw [Option.bind_some, Option.bind_some, ih, Option.map_map]
        exact congrArg (Option.map · _) (funext fun rest => (List.foldl_append ..).symm)

lemma kernelConvert_of_convert {size : Size} {c : UInt8} {args args' : List Arg}
    {text : List UInt8} (h : convert kernelNumbers size c args = some (text, args')) :
    kernelConvert size c args = some (text, args') := by
  have hmem : c ∉ singleSided := by
    intro hmem
    have hcases : c = code 'j' ∨ c = code 'J' ∨ c = code 'f' ∨ c = code 'w' ∨ c = code 't' := by
      simpa [singleSided, codes] using hmem
    rcases hcases with rfl | rfl | rfl | rfl | rfl <;> cases h
  have hj : c ≠ code 'j' := fun hc => hmem (hc ▸ by decide)
  have hJ : c ≠ code 'J' := fun hc => hmem (hc ▸ by decide)
  rw [kernelConvert, if_neg hj, if_neg hJ, if_neg hmem, h]

/-! ### The buffer -/

/-- After `text`: the characters that fit, and nothing behind the last position. -/
structure Written (buffer : ℕ → UInt8) (length : ℕ) (text : List UInt8) (out : BufferState) :
    Prop where
  length_eq : out.length = length
  offset_eq : out.offset = min length text.length
  text_eq : ∀ i < out.offset, text[i]? = some (out.buffer i)
  untouched : ∀ i, length < i → out.buffer i = buffer i

variable {buffer : ℕ → UInt8} {length : ℕ} {text : List UInt8} {out : BufferState}

lemma Written.start : Written buffer length [] ⟨buffer, 0, length⟩ :=
  ⟨rfl, (Nat.min_zero _).symm, fun _ hi => absurd hi (Nat.not_lt_zero _), fun _ _ => rfl⟩

lemma Written.add (h : Written buffer length text out) (c : UInt8) :
    Written buffer length (text ++ [c]) (add out c) := by
  have hoffset := h.offset_eq
  have hlength := h.length_eq
  refine ⟨hlength, ?_, fun i hi => ?_, fun i hi => ?_⟩
  · show out.offset + (if out.offset < out.length then 1 else 0) = _
    rw [List.length_append, List.length_singleton]
    split <;> omega
  · show (text ++ [c])[i]? = some (Function.update out.buffer out.offset c i)
    rcases Nat.lt_trichotomy i out.offset with hlt | rfl | hgt
    · -- the character was there before
      have htext : i < text.length := by omega
      rw [Function.update_of_ne hlt.ne, List.getElem?_append_left htext, h.text_eq i hlt]
    · -- the new character, which fits
      have hroom : out.offset < out.length := by
        by_contra hfull
        rw [Format.add, if_neg hfull] at hi
        exact absurd hi (Nat.lt_irrefl _)
      have htext : out.offset = text.length := by omega
      rw [Function.update_self, htext, List.getElem?_append_right le_rfl, Nat.sub_self]
      rfl
    · have hle : (Format.add out c).offset ≤ out.offset + 1 := by
        show out.offset + (if out.offset < out.length then 1 else 0) ≤ _
        split <;> omega
      omega
  · have hne : i ≠ out.offset := by omega
    exact (Function.update_of_ne hne _ _).trans (h.untouched i hi)

lemma Written.foldl (h : Written buffer length text out) (more : List UInt8) :
    Written buffer length (text ++ more) (more.foldl Format.add out) := by
  induction more generalizing text out with
  | nil => rwa [List.append_nil]
  | cons c more ih =>
    have hnext := ih (h.add c)
    rwa [List.append_assoc] at hnext

/-! ### Arguments that match -/

/-- What a conversion of the kernel wants. -/
inductive KernelWants : UInt8 → Arg → Prop
  | shared {c : UInt8} {arg : Arg} : Wants c arg → KernelWants c arg
  | contractedIp6 (b : List UInt8) : b.length = 16 → KernelWants (code 'j') (.bytes b)
  | ip6 (b : List UInt8) : b.length = 16 → KernelWants (code 'J') (.bytes b)

/-- The characters behind a percent sign that take an argument. -/
def kernelConversions : List UInt8 := codes "csduxXvpgMIjJ"

/-- The arguments are what the conversions of the template want. -/
inductive KernelMatches : List UInt8 → List Arg → Prop
  | nil (args : List Arg) : KernelMatches [] args
  | text {c : UInt8} {template : List UInt8} {args : List Arg} :
      c ≠ code '%' → KernelMatches template args → KernelMatches (c :: template) args
  | unfinished {template : List UInt8} (args : List Arg) :
      readFlags .int template = none → KernelMatches (code '%' :: template) args
  | conversion {template rest : List UInt8} {arg : Arg} {args : List Arg} {size : Size}
      {c : UInt8} :
      readFlags .int template = some (size, c, rest) → KernelWants c arg →
        KernelMatches rest args → KernelMatches (code '%' :: template) (arg :: args)
  | unknown {template rest : List UInt8} {args : List Arg} {size : Size} {c : UInt8} :
      readFlags .int template = some (size, c, rest) → c ∉ kernelConversions →
        KernelMatches rest args → KernelMatches (code '%' :: template) args

lemma kernelConvert_wants (size : Size) {c : UInt8} {arg : Arg} (h : KernelWants c arg)
    (args : List Arg) : ∃ text, kernelConvert size c (arg :: args) = some (text, args) := by
  cases h with
  | shared hwants =>
    obtain ⟨text, htext⟩ := convert_wants kernelNumbers size hwants args
    exact ⟨text, kernelConvert_of_convert htext⟩
  | contractedIp6 b => exact ⟨_, rfl⟩
  | ip6 b => exact ⟨_, rfl⟩

lemma kernelConvert_unknown (size : Size) {c : UInt8} (h : c ∉ kernelConversions)
    (args : List Arg) : kernelConvert size c args = some ([code '%', c], args) := by
  have hne : ∀ d ∈ kernelConversions, c ≠ d := fun d hd hcd => h (hcd ▸ hd)
  rw [kernelConvert, if_neg (hne _ (by decide)), if_neg (hne _ (by decide))]
  by_cases hmem : c ∈ singleSided
  · rw [if_pos hmem]
  · rw [if_neg hmem, convert]
    iterate 11 rw [if_neg (hne _ (by decide))]
    rw [if_neg hmem]

lemma formatText_isSome {template : List UInt8} {args : List Arg}
    (h : KernelMatches template args) : ∃ text, formatText template args = some text := by
  induction h with
  | nil args => exact ⟨[], by rw [formatText]⟩
  | @text c template args hc _ ih =>
    obtain ⟨text, htext⟩ := ih
    exact ⟨c :: text, by rw [formatText, if_pos hc, htext, Option.map_some]⟩
  | unfinished args hflags => exact ⟨[], formatText_unfinished hflags⟩
  | @conversion _ _ _ args size _ hflags hwants _ ih =>
    obtain ⟨more, hmore⟩ := ih
    obtain ⟨text, htext⟩ := kernelConvert_wants size hwants args
    exact ⟨text ++ more, by rw [formatText_conversion hflags htext, hmore, Option.map_some]⟩
  | @unknown _ _ args size c hflags hc _ ih =>
    obtain ⟨more, hmore⟩ := ih
    have htext := kernelConvert_unknown size hc args
    exact ⟨_ ++ more, by rw [formatText_conversion hflags htext, hmore, Option.map_some]⟩

/-! ### The prefix -/

/-- **A buffer of `n` bytes** takes the first `n - 1` characters of the text, and their end. -/
theorem kernelFormatStringVa_prefix {template : List UInt8} {args : List Arg}
    (h : KernelMatches template args) :
    ∃ text : List UInt8, formatText template args = some text ∧
      ∀ (buffer : ℕ → UInt8) (n : ℕ), 1 ≤ n →
        ∃ out, kernelFormatStringVa buffer n template args =
            some (min (n - 1) text.length, out) ∧
          (∀ i < min (n - 1) text.length, text[i]? = some (out i)) ∧
          out (min (n - 1) text.length) = 0 ∧ ∀ i, n ≤ i → out i = buffer i := by
  obtain ⟨text, htext⟩ := formatText_isSome h
  refine ⟨text, htext, fun buffer n hn => ?_⟩
  have hwritten : Written buffer (n - 1) text (text.foldl add ⟨buffer, 0, n - 1⟩) :=
    Written.start.foldl text
  generalize hout : text.foldl add ⟨buffer, 0, n - 1⟩ = out at hwritten
  have hoffset := hwritten.offset_eq
  refine ⟨Function.update out.buffer out.offset 0, ?_, fun i hi => ?_, ?_, fun i hi => ?_⟩
  · rw [kernelFormatStringVa, if_neg (by omega), kernelFormatLoop_eq, htext, Option.map_some,
      Option.map_some, hout, BufferState.finish, hoffset]
  · rw [← hoffset] at hi
    rw [Function.update_of_ne hi.ne, hwritten.text_eq i hi]
  · rw [← hoffset, Function.update_self]
  · have hne : i ≠ out.offset := by omega
    rw [Function.update_of_ne hne]
    exact hwritten.untouched i (by omega)

/-- `"%j%%"`, with an address. -/
theorem kernelFormatStringVa_prefix_ip6 :
    ∃ text : List UInt8, formatText ([37, 106, 37, 37] : List UInt8)
        [.bytes (List.replicate 15 0 ++ [1])] = some text ∧
      ∀ (buffer : ℕ → UInt8) (n : ℕ), 1 ≤ n →
        ∃ out, kernelFormatStringVa buffer n ([37, 106, 37, 37] : List UInt8)
            [.bytes (List.replicate 15 0 ++ [1])] = some (min (n - 1) text.length, out) ∧
          (∀ i < min (n - 1) text.length, text[i]? = some (out i)) ∧
          out (min (n - 1) text.length) = 0 ∧ ∀ i, n ≤ i → out i = buffer i := by
  have hj : readFlags .int ([106, 37, 37] : List UInt8) = some (.int, code 'j', [37, 37]) := by
    simp [readFlags]
  have hpercent : readFlags .int ([37] : List UInt8) = some (.int, code '%', []) := by
    simp [readFlags]
  exact kernelFormatStringVa_prefix
    (.conversion hj (.contractedIp6 _ (by decide)) (.unknown hpercent (by decide) (.nil [])))

end KernelModel.Format
