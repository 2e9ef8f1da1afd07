import KernelModel.ConfigTextEnds

/-!
Text that is written and read back.

The printer writes each tag on lines of its own. The parser reads it back as it was, except for
the least integer: the printer negates it, which changes nothing, and prints the remainders of a
negative number, of which one is a comma.
-/

namespace KernelModel.Config

/-! ### Digits -/

section

variable {value : BitVec 64} {buffer rest name : List UInt8}

lemma sdiv_ten (h : value.toNat < 2 ^ 63) : (value.sdiv 10).toNat = value.toNat / 10 := by
  have hmsb : value.msb = false := by
    rw [BitVec.msb_eq_false_iff_two_mul_lt]
    omega
  rw [BitVec.sdiv_eq, hmsb]
  rfl

lemma srem_ten (h : value.toNat < 2 ^ 63) : (value.srem 10).toNat = value.toNat % 10 := by
  have hmsb : value.msb = false := by
    rw [BitVec.msb_eq_false_iff_two_mul_lt]
    omega
  rw [BitVec.srem_eq, hmsb]
  rfl

lemma digit_toNat (h : value.toNat < 2 ^ 63) :
    (UInt8.ofBitVec ((value.srem 10 + 48).truncate 8)).toNat = value.toNat % 10 + 48 := by
  have := srem_ten h
  simp only [BitVec.truncate_eq_setWidth, UInt8.toNat_ofBitVec, BitVec.toNat_setWidth,
    BitVec.toNat_add, this]
  have h48 : BitVec.toNat (48 : BitVec 64) = 48 := rfl
  omega

lemma push_digit (h : value.toNat < 2 ^ 63) : value.sdiv 10 * 10 + BitVec.ofNat 64
    (UInt8.ofBitVec ((value.srem 10 + 48).truncate 8)).toNat - 48 = value := by
  have hdiv := sdiv_ten h
  apply BitVec.eq_of_toNat_eq
  rw [digit_toNat h, BitVec.toNat_sub, BitVec.toNat_add, BitVec.toNat_mul, hdiv, BitVec.toNat_ofNat]
  have h48 : BitVec.toNat (48 : BitVec 64) = 48 := rfl
  have h10 : BitVec.toNat (10 : BitVec 64) = 10 := rfl
  rw [h48, h10]
  omega

lemma digitsValue_concat (value : BitVec 64) (digits : List UInt8) (c : UInt8) :
    digitsValue value (digits ++ [c])
      = digitsValue value digits * 10 + BitVec.ofNat 64 c.toNat - 48 := by
  rw [digitsValue, List.foldl_append]
  rfl

lemma isNumber_iff {c : UInt8} : isNumber c = true ↔ 48 ≤ c.toNat ∧ c.toNat ≤ 57 := by
  rw [isNumber, Bool.and_eq_true, decide_eq_true_eq, decide_eq_true_eq, UInt8.le_iff_toNat_le,
    UInt8.le_iff_toNat_le]
  rfl

lemma printDigits_spec : ∀ (i : ℕ) (value : BitVec 64) (buffer : List UInt8),
    value.toNat < 2 ^ 63 → value.toNat < 10 ^ (i + 1) →
    ∃ digits, printDigits (i + 1) value buffer = digits ++ buffer ∧ digits ≠ [] ∧
      (∀ c ∈ digits, isNumber c = true) ∧ digitsValue 0 digits = value := by
  intro i
  induction i with
  | zero =>
    intro value buffer h hlt
    have hzero : value.sdiv 10 = 0 := by
      apply BitVec.eq_of_toNat_eq
      rw [sdiv_ten h, Nat.div_eq_of_lt (by simpa using hlt)]
      rfl
    refine ⟨[UInt8.ofBitVec ((value.srem 10 + 48).truncate 8)], ?_, by simp, ?_, ?_⟩
    · rw [printDigits, hzero]
      simp
    · intro c hc
      rw [List.mem_singleton.mp hc, isNumber_iff, digit_toNat h]
      omega
    · have := push_digit h
      rwa [hzero] at this
  | succ i ih =>
    intro value buffer h hlt
    have hdigit : isNumber (UInt8.ofBitVec ((value.srem 10 + 48).truncate 8)) = true := by
      rw [isNumber_iff, digit_toNat h]
      omega
    by_cases hzero : value.sdiv 10 = 0
    · refine ⟨[UInt8.ofBitVec ((value.srem 10 + 48).truncate 8)], ?_, by simp, ?_, ?_⟩
      · rw [printDigits, hzero]
        simp
      · intro c hc
        rwa [List.mem_singleton.mp hc]
      · have := push_digit h
        rwa [hzero] at this
    · have hdiv := sdiv_ten h
      obtain ⟨digits, hprint, hne, hnum, hvalue⟩ := ih (value.sdiv 10)
        (UInt8.ofBitVec ((value.srem 10 + 48).truncate 8) :: buffer) (by omega)
        (by rw [hdiv]; exact Nat.div_lt_of_lt_mul (by rw [pow_succ] at hlt; omega))
      refine ⟨digits ++ [UInt8.ofBitVec ((value.srem 10 + 48).truncate 8)], ?_, by simp, ?_, ?_⟩
      · rw [printDigits]
        simp only [ne_eq, hzero, not_false_eq_true, if_true]
        rw [hprint, List.append_assoc]
        rfl
      · intro c hc
        rcases List.mem_append.mp hc with hc | hc
        · exact hnum c hc
        · rwa [List.mem_singleton.mp hc]
      · rw [digitsValue_concat, hvalue]
        exact push_digit h

/-- The text of an integer that is not the least one: digits, with a sign if it is negative. -/
lemma printInt_spec (h : value ≠ BitVec.intMin 64) : ∃ sign digits,
    printInt value = sign ++ digits ∧ digits ≠ [] ∧ (∀ c ∈ digits, isNumber c = true) ∧
      (sign = [] ∧ digitsValue 0 digits = value ∨
        sign = [byte '-'] ∧ digitsValue 0 digits = -value) := by
  have hmin : value.toNat ≠ 2 ^ 63 := by
    intro heq
    apply h
    apply BitVec.eq_of_toNat_eq
    rw [heq]
    rfl
  have hsign : value.slt 0 = value.msb := BitVec.slt_zero_eq_msb
  unfold printInt
  rw [hsign]
  by_cases hmsb : value.msb = true
  · rw [if_pos hmsb]
    have hge : 2 ^ 63 ≤ value.toNat := by
      rw [BitVec.msb_eq_true_iff_two_mul_ge] at hmsb
      omega
    have hlt := value.isLt
    have hsmall : (-value).toNat < 2 ^ 63 := by
      rw [BitVec.toNat_neg]
      omega
    obtain ⟨digits, hprint, hne, hnum, hvalue⟩ := printDigits_spec 19 (-value) [] hsmall
      (hsmall.trans (by norm_num))
    refine ⟨[byte '-'], digits, ?_, hne, hnum, .inr ⟨rfl, hvalue⟩⟩
    rw [hprint, List.append_nil]
    rfl
  · rw [if_neg hmsb]
    have hsmall : value.toNat < 2 ^ 63 := by
      rw [Bool.not_eq_true, BitVec.msb_eq_false_iff_two_mul_lt] at hmsb
      omega
    obtain ⟨digits, hprint, hne, hnum, hvalue⟩ := printDigits_spec 19 value [] hsmall
      (hsmall.trans (by norm_num))
    refine ⟨[], digits, ?_, hne, hnum, .inl ⟨rfl, hvalue⟩⟩
    rw [hprint, List.append_nil]
    rfl

lemma readNumber_printInt (rest : List UInt8) (h : value ≠ BitVec.intMin 64) :
    readNumber (printInt value ++ byte '\n' :: rest) = .ok (some (value, byte '\n' :: rest)) := by
  obtain ⟨sign, digits, hprint, hne, hnum, hvalue⟩ := printInt_spec h
  have hsign : sign = [] ∨ sign = [byte '-'] ∨ sign = [byte '+'] := by
    rcases hvalue with ⟨rfl, -⟩ | ⟨rfl, -⟩
    · exact .inl rfl
    · exact .inr (.inl rfl)
  have hdigits : Digits (printInt value ++ byte '\n' :: rest) digits (byte '\n' :: rest) :=
    ⟨sign, hsign, by rw [hprint], hnum⟩
  obtain ⟨htake, hdrop⟩ := hdigits.eq (by
    intro c hc
    obtain rfl := Option.some.inj hc
    rfl) (.inl hne)
  have hv : printInt value ++ byte '\n' :: rest ≠ [] := by simp
  rcases readNumber_eq hv with ⟨hnil, -⟩ | ⟨c, rest', hcons, hread⟩
  · rw [hdrop] at hnil
    cases hnil
  · rw [hdrop] at hcons
    obtain ⟨rfl, rfl⟩ := List.cons.inj hcons
    rw [hread, htake, if_pos ⟨hne, .inr (.inl rfl)⟩, hprint]
    rcases hvalue with ⟨rfl, hvalue⟩ | ⟨rfl, hvalue⟩
    · have hhead : ([] ++ digits ++ byte '\n' :: rest).head? ≠ some (byte '-') := by
        cases digits with
        | nil => exact absurd rfl hne
        | cons c digits =>
          intro hc
          obtain rfl := Option.some.inj hc
          have := hnum (byte '-') (by simp)
          cases this
      rw [if_neg hhead, hvalue]
    · have hhead : ([byte '-'] ++ digits ++ byte '\n' :: rest).head? = some (byte '-') := rfl
      rw [if_pos hhead, hvalue, BitVec.neg_neg]

end

/-! ### What is written -/

/-- A name that there is memory for and that the parser reads as one. -/
structure IsName (name : List UInt8) : Prop where
  length : name.length ≤ stringMaxLength
  start : name.head?.any isIdentifierStart = true
  all : ∀ c ∈ name, isIdentifier c = true

mutual

/-- Arrays and integers with a name or none, and empty tags with a name. -/
def Printable : Tag → Prop
  | .none name => IsName name
  | .array name data => (name = [] ∨ IsName name) ∧ Printables data
  | .string _ _ => False
  | .int name _ => name = [] ∨ IsName name

def Printables : List Tag → Prop
  | [] => True
  | tag :: data => Printable tag ∧ Printables data

end

mutual

/-- The least integer is not in the tag. -/
def NoMin : Tag → Prop
  | .none _ => True
  | .array _ data => NoMins data
  | .string _ _ => True
  | .int _ value => value ≠ BitVec.intMin 64

def NoMins : List Tag → Prop
  | [] => True
  | tag :: data => NoMin tag ∧ NoMins data

end

/-! ### Rounds at printed tags -/

/-- The parser comes to the text after the tags, with the tags read. -/
def Reads (s : Parse) (tags : List Tag) (after : List UInt8) : Prop :=
  ∃ n rest opened closed,
    roundsFrom s n = some ⟨rest, s.name, s.data ++ tags, s.parents, opened, closed⟩ ∧
      itemText rest = itemText after

/-- The parser comes to a comma, and stays there. -/
def Hangs (s : Parse) : Prop :=
  ∃ n s', roundsFrom s n = some s' ∧ (itemText s'.rest).head? = some (byte ',')

/-- A character that the text of a value starts with, after a name or without one. -/
def startsValue (c : UInt8) : Bool :=
  !isIdentifierStart c && !isWhitespace c && c ≠ byte ',' && c ≠ byte '}' && c ≠ byte '='

section

variable {s s' : Parse} {name rest after : List UInt8} {c : UInt8} {value : BitVec 64}

lemma itemText_cons (h : isWhitespace c = false) : itemText (c :: rest) = c :: rest := by
  rw [itemText, List.dropWhile_cons, h]
  rfl

lemma itemText_level (level : ℕ) : itemText (saveLevel level ++ rest) = itemText rest :=
  List.dropWhile_append_of_pos fun c hc => by
    rw [List.eq_of_mem_replicate hc]
    rfl

lemma itemText_newline (rest : List UInt8) : itemText (byte '\n' :: rest) = itemText rest := rfl

lemma not_isWhitespace_of_start (h : isIdentifierStart c = true) : isWhitespace c = false := by
  by_contra hspace
  rw [Bool.not_eq_false] at hspace
  simp only [isWhitespace, Bool.or_eq_true, decide_eq_true_eq] at hspace
  rcases hspace with (((rfl | rfl) | rfl) | rfl) | rfl <;> cases h

lemma IsName.itemText (h : IsName name) : itemText (name ++ rest) = name ++ rest := by
  have hstart := h.start
  cases name with
  | nil => cases hstart
  | cons c t => exact itemText_cons (not_isWhitespace_of_start (by simpa using hstart))

lemma parseRound_name (h : IsName name) (hitem : Config.itemText s.rest = name ++ c :: rest)
    (hc : isIdentifier c = false) :
    parseRound s = parseNamed s name ((c :: rest).dropWhile isBlank) := by
  have hstart := h.start
  have htake : (name ++ c :: rest).takeWhile isIdentifier = name := by
    rw [List.takeWhile_append_of_pos h.all]
    simp [hc]
  have hdrop : (name ++ c :: rest).dropWhile isIdentifier = c :: rest := by
    rw [List.dropWhile_append_of_pos h.all]
    simp [hc]
  rw [Config.itemText] at hitem
  unfold parseRound
  rw [hitem]
  cases hname : name with
  | nil =>
    rw [hname] at hstart
    cases hstart
  | cons d t =>
    rw [hname] at htake hdrop hstart
    rw [List.cons_append] at htake hdrop ⊢
    simp only [Option.any_some, List.head?_cons] at hstart
    simp only [hstart, if_true]
    have hlen := h.length
    rw [hname] at hlen
    rw [htake, counted, if_pos (hlen.trans_lt (by decide))]
    simp only
    rw [smmAlloc_known (by simp), smmCreate_ok hlen]
    simp only
    rw [← htake, take_takeWhile, drop_takeWhile, htake, hdrop]

lemma parseRound_unnamed (hitem : itemText s.rest = c :: rest) (hc : isIdentifierStart c = false) :
    parseRound s = parseNamed s [] (c :: rest) := by
  rw [itemText] at hitem
  unfold parseRound
  rw [hitem]
  simp only [hc, Bool.false_eq_true, if_false]

lemma parseRound_value (hname : name = [] ∨ IsName name) (hc : startsValue c = true) (level : ℕ)
    (hitem : itemText s.rest = itemText (saveLevel level ++ name ++
      (if name ≠ [] then [byte '='] else []) ++ c :: rest)) :
    parseRound s = parseValue s name (c :: rest) := by
  simp only [startsValue, Bool.and_eq_true, Bool.not_eq_true', decide_eq_true_eq] at hc
  obtain ⟨⟨⟨⟨hstart, hspace⟩, hcomma⟩, hclose⟩, heq⟩ := hc
  have hnewline : c ≠ byte '\n' := by
    rintro rfl
    cases hspace
  rw [List.append_assoc, List.append_assoc, itemText_level] at hitem
  rcases hname with rfl | hname
  · rw [parseRound_unnamed (hitem.trans (itemText_cons hspace)) hstart, parseNamed]
    simp only [hcomma, hnewline, or_self, if_false, hclose, ne_eq, not_true_eq_false, heq]
  · have hne : name ≠ [] := by
      rintro rfl
      cases hname.start
    have hblank : isBlank c = false := by simp [isBlank, hspace]
    rw [if_pos hne, hname.itemText, List.singleton_append] at hitem
    rw [parseRound_name hname hitem rfl]
    have hskip : (byte '=' :: c :: rest).dropWhile isBlank = byte '=' :: c :: rest := rfl
    have hskip' : (c :: rest).dropWhile isBlank = c :: rest := by simp [hblank]
    rw [hskip, parseNamed]
    simp only [ne_eq, hne, not_false_eq_true, true_or, if_true, not_true_eq_false, if_false, hskip']
    rfl

lemma reads_of_round {tag : Tag} (rest : List UInt8)
    (h : parseRound s = .next (s.attach tag rest)) (hrest : itemText rest = itemText after) :
    Reads s [tag] after :=
  ⟨1, rest, s.opened, s.closed, by rw [roundsFrom, h]; rfl, hrest⟩

lemma reads_none (h : IsName name) (level : ℕ)
    (hitem : itemText s.rest = itemText (saveLevel level ++ name ++ byte '\n' :: rest)) :
    Reads s [.none name] (byte '\n' :: rest) := by
  have hne : name ≠ [] := by
    rintro rfl
    cases h.start
  rw [List.append_assoc, itemText_level, h.itemText] at hitem
  refine reads_of_round (byte '\n' :: rest) ?_ rfl
  rw [parseRound_name h hitem rfl]
  have hskip : (byte '\n' :: rest).dropWhile isBlank = byte '\n' :: rest := rfl
  rw [hskip, parseNamed]
  simp only [or_true, if_true, hne, if_false]

lemma startsValue_of_isNumber (h : isNumber c = true) : startsValue c = true := by
  rw [isNumber_iff] at h
  obtain ⟨n, hn⟩ : ∃ n, c.toNat = n := ⟨_, rfl⟩
  have hc : c = UInt8.ofNat n := by rw [← hn, UInt8.ofNat_toNat]
  rw [hn] at h
  obtain ⟨hlo, hhi⟩ := h
  rw [hc]
  interval_cases n <;> rfl

lemma printInt_cons (h : value ≠ BitVec.intMin 64) : ∃ c text, printInt value = c :: text ∧
    startsValue c = true ∧ c ≠ byte '#' ∧ c ≠ byte '{' := by
  obtain ⟨sign, digits, hprint, hne, hnum, hvalue⟩ := printInt_spec h
  rcases hvalue with ⟨rfl, -⟩ | ⟨rfl, -⟩
  · obtain ⟨c, text, rfl⟩ := List.exists_cons_of_ne_nil hne
    have hc := hnum c (by simp)
    refine ⟨c, text, hprint, startsValue_of_isNumber hc, ?_, ?_⟩
    · rintro rfl
      cases hc
    · rintro rfl
      cases hc
  · exact ⟨byte '-', digits, hprint, rfl, by decide, by decide⟩

lemma reads_int (hname : name = [] ∨ IsName name) (hmin : value ≠ BitVec.intMin 64) (level : ℕ)
    (hitem : itemText s.rest = itemText (saveLevel level ++ name ++
      (if name ≠ [] then [byte '='] else []) ++ printInt value ++ byte '\n' :: rest)) :
    Reads s [.int name value] (byte '\n' :: rest) := by
  obtain ⟨c, text, hprint, hc, hhash, hopen⟩ := printInt_cons hmin
  have hread := readNumber_printInt rest hmin
  rw [hprint, List.cons_append] at hread
  rw [hprint, List.append_assoc _ (c :: text), List.cons_append] at hitem
  refine reads_of_round (byte '\n' :: rest) ?_ rfl
  rw [parseRound_value hname hc level hitem, parseValue]
  simp only [hhash, hopen, if_false, hread]

lemma printInt_intMin : printInt (BitVec.intMin 64)
    = [45, 39, 46, 46, 45, 45, 41, 46, 48, 45, 42, 40, 43] ++ byte ',' ::
      [41, 41, 43, 40, 48, 40] := by
  decide

lemma hangs_intMin (hname : name = [] ∨ IsName name) (level : ℕ)
    (hitem : itemText s.rest = itemText (saveLevel level ++ name ++
      (if name ≠ [] then [byte '='] else []) ++ printInt (BitVec.intMin 64) ++ byte '\n' :: rest)) :
    Hangs s := by
  rw [printInt_intMin, List.append_assoc _ (_ ++ _)] at hitem
  have hround := parseRound_value hname rfl level hitem
  refine ⟨1, s.attach (.string name [45, 39, 46, 46, 45, 45, 41, 46, 48, 45, 42, 40, 43])
    (byte ',' :: ([41, 41, 43, 40, 48, 40] ++ byte '\n' :: rest)), ?_, rfl⟩
  rw [roundsFrom, hround]
  rfl

lemma Reads.then {tags more : List Tag} {mid : List UInt8} (h : Reads s tags mid)
    (hmore : ∀ rest opened closed, itemText rest = itemText mid →
      Reads ⟨rest, s.name, s.data ++ tags, s.parents, opened, closed⟩ more after) :
    Reads s (tags ++ more) after := by
  obtain ⟨n, rest, opened, closed, hrun, hrest⟩ := h
  obtain ⟨m, rest', opened', closed', hrun', hrest'⟩ := hmore rest opened closed hrest
  refine ⟨n + m, rest', opened', closed', ?_, hrest'⟩
  rw [roundsFrom_add n _ _ hrun, hrun', List.append_assoc]

lemma Reads.hangs {tags : List Tag} {mid : List UInt8} (h : Reads s tags mid)
    (hmore : ∀ rest opened closed, itemText rest = itemText mid →
      Hangs ⟨rest, s.name, s.data ++ tags, s.parents, opened, closed⟩) : Hangs s := by
  obtain ⟨n, rest, opened, closed, hrun, hrest⟩ := h
  obtain ⟨m, s', hrun', hcomma⟩ := hmore rest opened closed hrest
  refine ⟨n + m, s', ?_, hcomma⟩
  rw [roundsFrom_add n _ _ hrun, hrun']

lemma parseRound_openArray (hname : name = [] ∨ IsName name) (level : ℕ)
    (hitem : itemText s.rest = itemText (saveLevel level ++ name ++
      (if name ≠ [] then [byte '='] else []) ++ byte '{' :: rest)) :
    parseRound s = .next (s.openArray name rest) := by
  rw [parseRound_value hname rfl level hitem]
  rfl

lemma parseRound_closeArray (rest : List UInt8) (hitem : itemText s.rest = byte '}' :: rest) :
    parseRound s = s.closeArray rest := by
  rw [parseRound_unnamed hitem rfl]
  rfl

lemma reads_array {data : List Tag} (inner : List UInt8) (hname : name = [] ∨ IsName name)
    (level : ℕ)
    (hitem : itemText s.rest = itemText (saveLevel level ++ name ++
      (if name ≠ [] then [byte '='] else []) ++ byte '{' :: inner))
    (h : Reads (s.openArray name inner) data (byte '}' :: after)) :
    Reads s [.array name data] after := by
  obtain ⟨n, rest, opened, closed, hrun, hrest⟩ := h
  refine ⟨1 + (n + 1), after, opened, closed + 1, ?_, rfl⟩
  have hopen : roundsFrom s 1 = some (s.openArray name inner) := by
    rw [roundsFrom, parseRound_openArray hname level hitem]
    rfl
  rw [roundsFrom_add 1 _ _ hopen]
  refine roundsFrom_succ n _ hrun ?_
  rw [parseRound_closeArray after (hrest.trans (itemText_cons rfl))]
  rfl

lemma hangs_array {inner : List UInt8} (hname : name = [] ∨ IsName name) (level : ℕ)
    (hitem : itemText s.rest = itemText (saveLevel level ++ name ++
      (if name ≠ [] then [byte '='] else []) ++ byte '{' :: inner))
    (h : Hangs (s.openArray name inner)) : Hangs s := by
  obtain ⟨n, s', hrun, hcomma⟩ := h
  have hopen : roundsFrom s 1 = some (s.openArray name inner) := by
    rw [roundsFrom, parseRound_openArray hname level hitem]
    rfl
  exact ⟨1 + n, s', by rw [roundsFrom_add 1 _ _ hopen, hrun], hcomma⟩

end

mutual

/-- A tag is read back from its text, or the parser hangs in it. -/
theorem readsTag : ∀ (tag : Tag) (level : ℕ) (text after : List UInt8) (s : Parse),
    Printable tag → saveTextTag tag level = some text →
    itemText s.rest = itemText (text ++ byte '\n' :: after) →
    (NoMin tag → Reads s [tag] (byte '\n' :: after)) ∧ (¬ NoMin tag → Hangs s)
  | .none name, level, text, after, s, hp, htext, hitem => by
    obtain rfl := Option.some.inj htext
    exact ⟨fun _ => reads_none hp level hitem, fun h => absurd trivial h⟩
  | .array name [], level, text, after, s, hp, htext, hitem => by
    obtain rfl := Option.some.inj htext
    refine ⟨fun _ => reads_array (byte '}' :: byte '\n' :: after) hp.1 level ?_ ?_,
      fun h => absurd trivial h⟩
    · rw [hitem]
      simp
    · exact ⟨0, _, _, _, rfl, rfl⟩
  | .array name (tag :: data), level, text, after, s, hp, htext, hitem => by
    rw [saveTextTag, if_neg (by simp), Option.map_eq_some_iff] at htext
    obtain ⟨texts, htexts, rfl⟩ := htext
    have hinner : itemText s.rest = itemText (saveLevel level ++ name ++
        (if name ≠ [] then [byte '='] else []) ++ byte '{' ::
          (byte '\n' :: (texts ++ (saveLevel level ++ byte '}' :: byte '\n' :: after)))) := by
      rw [hitem]
      simp
    obtain ⟨hreads, hhangs⟩ := readsTags (tag :: data) ((level + 1) % 2 ^ 32) texts
      (saveLevel level ++ byte '}' :: byte '\n' :: after) (s.openArray name _) hp.2 htexts
      (itemText_newline (texts ++ (saveLevel level ++ byte '}' :: byte '\n' :: after)))
    refine ⟨fun h => reads_array _ hp.1 level hinner ?_, fun h =>
      hangs_array hp.1 level hinner (hhangs h)⟩
    obtain ⟨n, rest, opened, closed, hrun, hrest⟩ := hreads h
    exact ⟨n, rest, opened, closed, hrun, hrest.trans (itemText_level level)⟩
  | .string name string, level, text, after, s, hp, htext, hitem => hp.elim
  | .int name value, level, text, after, s, hp, htext, hitem => by
    obtain rfl := Option.some.inj htext
    refine ⟨fun h => reads_int hp h level hitem, fun h => ?_⟩
    obtain rfl := Classical.not_not.mp h
    exact hangs_intMin hp level hitem

/-- The tags of an array are read back from their text. -/
theorem readsTags : ∀ (data : List Tag) (level : ℕ) (text after : List UInt8) (s : Parse),
    Printables data → saveTextTags data level = some text →
    itemText s.rest = itemText (text ++ after) →
    (NoMins data → Reads s data after) ∧ (¬ NoMins data → Hangs s)
  | [], level, text, after, s, hp, htext, hitem => by
    obtain rfl := Option.some.inj htext
    refine ⟨fun _ => ⟨0, s.rest, s.opened, s.closed, ?_, hitem⟩, fun h => absurd trivial h⟩
    rw [List.append_nil]
    rfl
  | tag :: data, level, text, after, s, hp, htext, hitem => by
    rw [saveTextTags, Option.bind_eq_some_iff] at htext
    obtain ⟨text₁, htext₁, htext⟩ := htext
    rw [Option.map_eq_some_iff] at htext
    obtain ⟨text₂, htext₂, rfl⟩ := htext
    have hitem₁ : itemText s.rest = itemText (text₁ ++ byte '\n' :: (text₂ ++ after)) := by
      rw [hitem]
      simp
    obtain ⟨hreads, hhangs⟩ := readsTag tag level text₁ (text₂ ++ after) s hp.1 htext₁ hitem₁
    have hrest :=
      fun rest opened closed (h : itemText rest = itemText (byte '\n' :: (text₂ ++ after))) =>
      readsTags data level text₂ after ⟨rest, s.name, s.data ++ [tag], s.parents, opened, closed⟩
        hp.2 htext₂ (h.trans (itemText_newline _))
    refine ⟨fun h => (hreads h.1).then fun rest opened closed hr =>
      (hrest rest opened closed hr).1 h.2,
      fun h => ?_⟩
    by_cases hmin : NoMin tag
    · exact (hreads hmin).hangs fun rest opened closed hr =>
        (hrest rest opened closed hr).2 fun hd => h ⟨hmin, hd⟩
    · exact hhangs hmin

end

/-! ### The round trip -/

mutual

lemma saveTextTag_isSome : ∀ (tag : Tag) (level : ℕ), Printable tag →
    ∃ text, saveTextTag tag level = some text
  | .none _, _, _ => ⟨_, rfl⟩
  | .array _ [], _, _ => ⟨_, rfl⟩
  | .array _ (tag :: data), level, h => by
    obtain ⟨texts, htexts⟩ := saveTextTags_isSome (tag :: data) ((level + 1) % 2 ^ 32) h.2
    rw [saveTextTag, if_neg (by simp), htexts]
    exact ⟨_, rfl⟩
  | .string _ _, _, h => h.elim
  | .int _ _, _, _ => ⟨_, rfl⟩

lemma saveTextTags_isSome : ∀ (data : List Tag) (level : ℕ), Printables data →
    ∃ text, saveTextTags data level = some text
  | [], _, _ => ⟨_, rfl⟩
  | tag :: data, level, h => by
    obtain ⟨text, htext⟩ := saveTextTag_isSome tag level h.1
    obtain ⟨texts, htexts⟩ := saveTextTags_isSome data level h.2
    rw [saveTextTags, htext, Option.bind_some, htexts]
    exact ⟨_, rfl⟩

end

lemma ParsesTo.finishes {text : List UInt8} {tag : Tag} (h : ParsesTo text tag) :
    Finishes text := by
  obtain ⟨n, s, s', hrun, hdone, -⟩ := h
  have hnested := parseRound_nested (roundsFrom_nested n _ (nested_start text) hrun)
  refine ⟨n, s, hrun, ?_⟩
  rw [hdone] at hnested ⊢
  exact hnested.proper

lemma not_parsesTo {data : List Tag} (h : Printables data) (hmin : ¬ NoMins data)
    {text : List UInt8} (htext : saveText data = some text) (tag : Tag) : ¬ ParsesTo text tag := by
  intro hparse
  obtain ⟨n, s, hrun, hcomma⟩ :=
    (readsTags data 0 text [] (Parse.start text) h htext (by simp [Parse.start])).2 hmin
  exact (hparse.finishes.clear hrun).comma hcomma

/-- **The round trip of text** gives the tags back if and only if the least integer is not among
them. -/
theorem text_roundTrip_iff (data : List Tag) (h : Printables data) :
    (∃ text, saveText data = some text ∧ ParsesTo text (.array [] data)) ↔ NoMins data := by
  constructor
  · rintro ⟨text, htext, hparse⟩
    by_contra hmin
    exact not_parsesTo h hmin htext _ hparse
  · intro hmin
    obtain ⟨text, htext⟩ := saveTextTags_isSome data 0 h
    obtain ⟨n, rest, opened, closed, hrun, hrest⟩ :=
      (readsTags data 0 text [] (Parse.start text) h htext (by simp [Parse.start])).1 hmin
    refine ⟨text, htext, n, _, ⟨[], [], data, [], opened, closed⟩, hrun, ?_, rfl⟩
    rw [itemText, itemText] at hrest
    unfold parseRound
    rw [hrest]
    rfl

lemma isName_letter {c : UInt8} (h : isIdentifierStart c = true) : IsName [c] := by
  refine ⟨by simp [stringMaxLength], h, fun d hd => ?_⟩
  rw [List.mem_singleton.mp hd, isIdentifier, h]
  rfl

/-- An array in an array, an empty tag and a negative number. -/
theorem text_roundTrip_nested : ∃ text,
    saveText [.array [byte 'a'] [.int [] (-7), .none [byte 'b'], .array [] []]] = some text ∧
    ParsesTo text
      (.array [] [.array [byte 'a'] [.int [] (-7), .none [byte 'b'], .array [] []]]) := by
  refine (text_roundTrip_iff _ ?_).mpr ?_
  · exact ⟨⟨.inr (isName_letter rfl), .inl rfl, isName_letter rfl, ⟨.inl rfl, trivial⟩, trivial⟩,
      trivial⟩
  · have hmin : (-7 : BitVec 64) ≠ BitVec.intMin 64 := by decide
    exact ⟨⟨hmin, trivial, trivial, trivial⟩, trivial⟩

/-- The least integer as the value of a tag. -/
theorem not_text_roundTrip_min :
    ¬ ∃ text, saveText [.int [byte 'a'] (BitVec.intMin 64)] = some text ∧
    ParsesTo text (.array [] [.int [byte 'a'] (BitVec.intMin 64)]) := by
  rintro ⟨text, htext, hparse⟩
  refine not_parsesTo ?_ ?_ htext _ hparse
  · exact ⟨.inr (isName_letter rfl), trivial⟩
  · exact fun h => h.1 rfl

end KernelModel.Config
