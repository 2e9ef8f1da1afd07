import KernelModel.ConfigText

/-!
When the text parser ends.

Every round of the main loop consumes text, except one that meets a comma where an item should
start: it goes on without consuming it. Besides, a number that the text ends with is read past
its end, and so are values that are empty. A round in which nothing of that kind happens is
clear, and the parser ends properly if and only if all its rounds are.
-/

namespace KernelModel.Config

/-! ### Clear items -/

/-- The text from the next item on. -/
def itemText (text : List UInt8) : List UInt8 := text.dropWhile isWhitespace

/-- The name that an item starts with. -/
def itemName (item : List UInt8) : List UInt8 :=
  if item.head?.any isIdentifierStart then item.takeWhile isIdentifier else []

/-- The text after the name. -/
def itemRest (item : List UInt8) : List UInt8 :=
  if item.head?.any isIdentifierStart then (item.dropWhile isIdentifier).dropWhile isBlank else item

/-- The text of the value after a name, if there is one. -/
def valueAfter (name : List UInt8) : List UInt8 → Option (List UInt8)
  | [] => none
  | c :: tail =>
    if c = byte '=' then some (tail.dropWhile isBlank)
    else if name = [] ∧ c ≠ byte ',' ∧ c ≠ byte '}' then some (c :: tail)
    else none

/-- The text of the value, if the item has one. -/
def itemValue (item : List UInt8) : Option (List UInt8) :=
  valueAfter (itemName item) (itemRest item)

/-- Digits with a sign or none, and what comes after them. -/
def Digits (v digits rest : List UInt8) : Prop :=
  ∃ sign, (sign = [] ∨ sign = [byte '-'] ∨ sign = [byte '+']) ∧ v = sign ++ digits ++ rest ∧
    ∀ c ∈ digits, isNumber c = true

/-- A sign, a number or a sign with a number, that the text ends with. -/
def EndsInNumber (v : List UInt8) : Prop := v ≠ [] ∧ ∃ digits, Digits v digits []

/-- A number with one of the characters that can follow it. -/
def IsNumberItem (v : List UInt8) : Prop :=
  ∃ digits c rest, digits ≠ [] ∧ Digits v digits (c :: rest) ∧
    (c = 0 ∨ c = byte '\n' ∨ c = byte ',' ∨ c = byte '#')

/-- The value is read to its end, and within the text. -/
def ClearValue (v : List UInt8) : Prop :=
  match v with
  | [] => True
  | c :: tail =>
    c = byte '#' ∨ c = byte '{' ∨
      ¬ EndsInNumber v ∧
      (c = byte '"' → tail.head? ≠ some (byte '"')) ∧
      (c ≠ byte '"' → IsNumberItem v ∨
        (v.takeWhile fun c => !isStringEnd c).length < 2 ^ 32 ∧
        Bounded v (plainString v).length)

/-- A round at this text consumes some of it, and reads nothing else. The value is not looked at if
there is no memory for the name. -/
structure Clear (text : List UInt8) : Prop where
  comma : (itemText text).head? ≠ some (byte ',')
  name : (itemName (itemText text)).length < 2 ^ 32 - 9
  value : (itemName (itemText text)).length ≤ stringMaxLength →
    ∀ v, itemValue (itemText text) = some v → ClearValue v

/-! ### Numbers -/

/-- The text after a sign. -/
def unsigned (v : List UInt8) : List UInt8 :=
  if v.head? = some (byte '-') ∨ v.head? = some (byte '+') then v.tail else v

/-- The value after more digits. -/
def digitsValue (value : BitVec 64) (digits : List UInt8) : BitVec 64 :=
  digits.foldl (fun value c => value * 10 + BitVec.ofNat 64 c.toNat - 48) value

section

variable {v digits rest : List UInt8} {c : UInt8}

lemma readDigits_append (h : ∀ c ∈ digits, isNumber c = true) (value : BitVec 64) :
    readDigits value (digits ++ rest) = readDigits (digitsValue value digits) rest := by
  induction digits generalizing value with
  | nil => rfl
  | cons d digits ih =>
    rw [List.cons_append, readDigits, if_pos (h d (by simp)), ih (fun c hc => h c (by simp [hc]))]
    rfl

lemma readDigits_of_not (h : isNumber c = false) (value : BitVec 64) :
    readDigits value (c :: rest) = .ok (value, c :: rest) := by
  rw [readDigits, h]
  rfl

lemma takeWhile_isNumber (v : List UInt8) : ∀ c ∈ v.takeWhile isNumber, isNumber c = true :=
  fun _ hc => List.mem_takeWhile_imp hc

lemma unsigned_append (hdigits : ∀ c ∈ digits, isNumber c = true) {sign : List UInt8}
    (hsign : sign = [] ∨ sign = [byte '-'] ∨ sign = [byte '+'])
    (hsome : digits ≠ [] ∨ rest = []) : unsigned (sign ++ digits ++ rest) = digits ++ rest := by
  rcases hsign with rfl | rfl | rfl
  · cases digits with
    | nil =>
      rw [hsome.resolve_left (by simp)]
      rfl
    | cons d digits =>
      have hd := hdigits d (by simp)
      refine if_neg ?_
      rintro (h | h)
      · obtain rfl := Option.some.inj h
        cases hd
      · obtain rfl := Option.some.inj h
        cases hd
  · rfl
  · rfl

/-- Digits are followed by something else, so that they are determined by the text. -/
lemma Digits.eq (h : Digits v digits rest) (hrest : ∀ c ∈ rest.head?, isNumber c = false)
    (hsome : digits ≠ [] ∨ rest = []) :
    (unsigned v).takeWhile isNumber = digits ∧ (unsigned v).dropWhile isNumber = rest := by
  obtain ⟨sign, hsign, rfl, hdigits⟩ := h
  rw [unsigned_append hdigits hsign hsome]
  have hstop : rest.takeWhile isNumber = [] ∧ rest.dropWhile isNumber = rest := by
    cases rest with
    | nil => exact ⟨rfl, rfl⟩
    | cons c rest => simp [hrest c rfl]
  rw [List.takeWhile_append_of_pos hdigits, List.dropWhile_append_of_pos hdigits, hstop.1, hstop.2,
    List.append_nil]
  exact ⟨rfl, rfl⟩

lemma digits_unsigned (v : List UInt8) :
    Digits v ((unsigned v).takeWhile isNumber) ((unsigned v).dropWhile isNumber) := by
  have hsplit : ∀ sign, v = sign ++ unsigned v → v = sign ++ (unsigned v).takeWhile isNumber
      ++ (unsigned v).dropWhile isNumber := by
    intro sign h
    rw [List.append_assoc, List.takeWhile_append_dropWhile]
    exact h
  cases v with
  | nil => exact ⟨[], .inl rfl, rfl, takeWhile_isNumber _⟩
  | cons c t =>
    by_cases hminus : c = byte '-'
    · subst hminus
      exact ⟨[byte '-'], .inr (.inl rfl), hsplit _ rfl, takeWhile_isNumber _⟩
    · by_cases hplus : c = byte '+'
      · subst hplus
        exact ⟨[byte '+'], .inr (.inr rfl), hsplit _ rfl, takeWhile_isNumber _⟩
      · have hsame : unsigned (c :: t) = c :: t := by
          simp [unsigned, hminus, hplus]
        exact ⟨[], .inl rfl, hsplit _ (by rw [hsame]; rfl), takeWhile_isNumber _⟩

lemma endsInNumber_iff (hv : v ≠ []) :
    EndsInNumber v ↔ (unsigned v).dropWhile isNumber = [] := by
  constructor
  · rintro ⟨-, digits, h⟩
    exact (h.eq (by simp) (.inr rfl)).2
  · intro h
    have := digits_unsigned v
    rw [h] at this
    exact ⟨hv, _, this⟩

lemma not_isNumber_of_end (h : c = 0 ∨ c = byte '\n' ∨ c = byte ',' ∨ c = byte '#') :
    isNumber c = false := by
  rcases h with rfl | rfl | rfl | rfl <;> rfl

lemma isNumberItem_iff : IsNumberItem v ↔ (unsigned v).takeWhile isNumber ≠ [] ∧
    ∃ c rest, (unsigned v).dropWhile isNumber = c :: rest ∧
      (c = 0 ∨ c = byte '\n' ∨ c = byte ',' ∨ c = byte '#') := by
  constructor
  · rintro ⟨digits, c, rest, hne, h, hc⟩
    obtain ⟨h₁, h₂⟩ := h.eq (by
      intro d hd
      obtain rfl := Option.some.inj hd
      exact not_isNumber_of_end hc) (.inl hne)
    exact ⟨h₁ ▸ hne, c, rest, h₂, hc⟩
  · rintro ⟨hne, c, rest, h, hc⟩
    have := digits_unsigned v
    rw [h] at this
    exact ⟨_, c, rest, hne, this, hc⟩

lemma startsNumber_eq (hv : v ≠ []) : startsNumber v =
    match unsigned v with
    | [] => .fault
    | d :: _ => .ok (isNumber d) := by
  cases v with
  | nil => exact absurd rfl hv
  | cons c t =>
    by_cases hminus : c = byte '-'
    · subst hminus
      cases t with
      | nil => rfl
      | cons d t => rfl
    · by_cases hplus : c = byte '+'
      · subst hplus
        cases t with
        | nil => rfl
        | cons d t => rfl
      · have hsame : unsigned (c :: t) = c :: t := by simp [unsigned, hminus, hplus]
        rw [hsame, startsNumber.eq_def]
        by_cases hc : isNumber c = true
        · simp [hc]
        · simp [hc, hminus, hplus]

lemma readNumber_eq (hv : v ≠ []) :
    (unsigned v).dropWhile isNumber = [] ∧ readNumber v = .fault ∨
    ∃ c rest, (unsigned v).dropWhile isNumber = c :: rest ∧ readNumber v = .ok
      (if (unsigned v).takeWhile isNumber ≠ [] ∧
        (c = 0 ∨ c = byte '\n' ∨ c = byte ',' ∨ c = byte '#')
        then some (if v.head? = some (byte '-')
          then -digitsValue 0 ((unsigned v).takeWhile isNumber)
          else digitsValue 0 ((unsigned v).takeWhile isNumber), c :: rest)
        else none) := by
  have hread : readDigits 0 (unsigned v) = readDigits
      (digitsValue 0 ((unsigned v).takeWhile isNumber)) ((unsigned v).dropWhile isNumber) := by
    rw [← readDigits_append (takeWhile_isNumber _), List.takeWhile_append_dropWhile]
  have hunsigned : (if decide (v.head? = some (byte '-')) = true ∨ v.head? = some (byte '+') then
      v.tail else v) = unsigned v := by
    simp only [decide_eq_true_eq]
    rfl
  rw [readNumber, startsNumber_eq hv]
  cases hu : unsigned v with
  | nil => exact .inl ⟨rfl, rfl⟩
  | cons d t =>
    rw [hu] at hread
    by_cases hd : isNumber d = true
    · simp only [hd]
      rw [hunsigned, hu, hread]
      cases hdrop : (d :: t).dropWhile isNumber with
      | nil => exact .inl ⟨rfl, rfl⟩
      | cons c rest =>
        refine .inr ⟨c, rest, rfl, ?_⟩
        have hne : (d :: t).takeWhile isNumber ≠ [] := by simp [hd]
        rw [readDigits_of_not (head_dropWhile hdrop)]
        simp only [hne, ne_eq, not_false_eq_true, true_and, decide_eq_true_eq]
        split_ifs <;> rfl
    · rw [Bool.not_eq_true] at hd
      refine .inr ⟨d, t, by simp [hd], ?_⟩
      have hnil : (d :: t).takeWhile isNumber = [] := by simp [hd]
      simp only [hd, hnil, ne_eq, not_true_eq_false, false_and, if_false]

end

section

variable {v : List UInt8}

lemma length_unsigned_le (v : List UInt8) : (unsigned v).length ≤ v.length := by
  unfold unsigned
  split_ifs
  · simp
  · exact le_rfl

lemma readNumber_cases (hv : v ≠ []) :
    EndsInNumber v ∧ readNumber v = .fault ∨
    ¬ EndsInNumber v ∧ IsNumberItem v ∧
      (∃ x rest, readNumber v = .ok (some (x, rest)) ∧ rest.length < v.length) ∨
    ¬ EndsInNumber v ∧ ¬ IsNumberItem v ∧ readNumber v = .ok none := by
  rw [endsInNumber_iff hv, isNumberItem_iff]
  rcases readNumber_eq hv with ⟨hdrop, hread⟩ | ⟨c, rest, hdrop, hread⟩
  · exact .inl ⟨hdrop, hread⟩
  · right
    rw [hdrop]
    by_cases hnum : (unsigned v).takeWhile isNumber ≠ [] ∧
        (c = 0 ∨ c = byte '\n' ∨ c = byte ',' ∨ c = byte '#')
    · rw [if_pos hnum] at hread
      refine .inl ⟨by simp, ⟨hnum.1, c, rest, rfl, hnum.2⟩, _, _, hread, ?_⟩
      have hsplit := congrArg List.length
        (List.takeWhile_append_dropWhile (p := isNumber) (l := unsigned v))
      rw [List.length_append, hdrop] at hsplit
      have := List.length_pos_iff.mpr hnum.1
      have := length_unsigned_le v
      omega
    · rw [if_neg hnum] at hread
      refine .inr ⟨by simp, ?_, hread⟩
      rintro ⟨hne, c', rest', heq, hc⟩
      obtain ⟨rfl, -⟩ := List.cons.inj heq
      exact hnum ⟨hne, hc⟩

lemma not_isNumberItem_quote : ¬ IsNumberItem (byte '"' :: v) := by
  rw [isNumberItem_iff]
  rintro ⟨h, -⟩
  exact h rfl

end

/-! ### Strings -/

section

variable {v rest name : List UInt8} {c : UInt8} {s s' : Parse}

/-- What the loop over a quoted string ends with, from a buffer on. -/
def QuotedEnd (buffer rest : List UInt8) : Prop :=
  readQuoted buffer rest = .panic ∧ rest.head? ≠ some (byte '"') ∨
    ∃ more rest', readQuoted buffer rest = .ok (buffer ++ more) rest' ∧
      rest'.length ≤ rest.length ∧ (more = [] ↔ rest.head? = some (byte '"'))

lemma QuotedEnd.push {buffer text rest : List UInt8} {c d : UInt8} (hne : c ≠ byte '"')
    (hread : readQuoted buffer (c :: text) = readQuoted (buffer ++ [d]) rest)
    (hle : rest.length ≤ text.length) (h : QuotedEnd (buffer ++ [d]) rest) :
    QuotedEnd buffer (c :: text) := by
  unfold QuotedEnd
  rw [hread]
  rcases h with ⟨hp, -⟩ | ⟨more, rest', hok, hle', -⟩
  · exact .inl ⟨hp, by simpa using hne⟩
  · refine .inr ⟨d :: more, rest', by simpa using hok, ?_, by simp [hne]⟩
    rw [List.length_cons]
    omega

lemma quotedEnd : ∀ (n : ℕ) (rest buffer : List UInt8), rest.length ≤ n → QuotedEnd buffer rest
  | _, [], buffer, _ => .inl ⟨rfl, by simp⟩
  | 0, _ :: _, _, hn => by simp at hn
  | n + 1, c :: rest, buffer, hn => by
    rw [List.length_cons] at hn
    by_cases hquote : c = byte '"'
    · subst hquote
      have hread : readQuoted buffer (byte '"' :: rest) = .ok buffer (byte '"' :: rest) := by
        rw [readQuoted.eq_def]
        simp
      exact .inr ⟨[], byte '"' :: rest, by simpa using hread, le_rfl, by simp⟩
    by_cases hfits : Amm.Fits (buffer.length + 1)
    · by_cases hslash : c = byte '\\'
      · subst hslash
        cases rest with
        | nil =>
          refine .inl ⟨?_, by simpa using hquote⟩
          rw [readQuoted.eq_def]
          simp [hquote, hfits]
        | cons e rest =>
          rw [List.length_cons] at hn
          cases hesc : unescape e with
          | none =>
            refine .inl ⟨?_, by simpa using hquote⟩
            rw [readQuoted.eq_def]
            simp [hquote, hfits, hesc]
          | some d =>
            refine QuotedEnd.push (d := d) hquote ?_ (by simp) (quotedEnd n rest _ (by omega))
            rw [readQuoted.eq_def]
            simp [hquote, hfits, hesc]
      · refine QuotedEnd.push (d := c) hquote ?_ le_rfl (quotedEnd n rest _ (by omega))
        rw [readQuoted.eq_def]
        simp [hquote, hfits, hslash]
    · refine .inl ⟨?_, by simpa using hquote⟩
      rw [readQuoted.eq_def]
      simp [hquote, hfits]

/-- The round consumes some of a text of this length, or ends the loop. -/
def Round.Consumes (n : ℕ) : Round → Prop
  | .next s => s.rest.length < n
  | .done _ => True
  | .null => True
  | .panic => True
  | .fault => False
  | .spin => False

/-- The round reads past the text or does not end. -/
def Round.Fails : Round → Prop
  | .fault => True
  | .spin => True
  | _ => False

/-- The round goes well if and only if the text is as it should be. -/
def Round.Judged (n : ℕ) (good : Prop) (r : Round) : Prop :=
  r.Consumes n ∧ good ∨ r.Fails ∧ ¬ good

lemma plainString_eq_nil (hblank : isBlank c = false) :
    plainString (c :: rest) = [] ↔ isStringEnd c = true := by
  unfold plainString
  rw [List.rdropWhile_eq_nil_iff]
  constructor
  · intro h
    by_contra hend
    rw [Bool.not_eq_true] at hend
    have hc := h c (by simp [hend])
    rw [Bool.or_eq_true, decide_eq_true_eq, decide_eq_true_eq] at hc
    rcases hc with rfl | rfl
    · cases hblank
    · cases hblank
  · intro h
    simp [h]

lemma length_plainString_le (rest : List UInt8) :
    (plainString rest).length ≤ rest.length := by
  exact ((List.rdropWhile_prefix _ _).length_le).trans (List.takeWhile_prefix _).length_le

lemma parsePlain_judged {n : ℕ} (hblank : isBlank c = false) (hn : (c :: rest).length ≤ n)
    (hlt : isStringEnd c = true → (c :: rest).length < n) :
    (parsePlain s name (c :: rest)).Judged n
      (((c :: rest).takeWhile fun c => !isStringEnd c).length < 2 ^ 32 ∧
        Bounded (c :: rest) (plainString (c :: rest)).length) := by
  unfold parsePlain counted
  by_cases hcount : ((c :: rest).takeWhile fun c => !isStringEnd c).length < 2 ^ 32
  · rw [if_pos hcount]
    simp only [hcount, true_and]
    have hle : (plainString (c :: rest)).length ≤
        ((c :: rest).takeWhile fun c => !isStringEnd c).length :=
      (List.rdropWhile_prefix _ _).length_le
    rcases smmAlloc_cases (c :: rest) (hle.trans_lt hcount) with
      ⟨-, hbounded, k, hk, -⟩ | ⟨-, ⟨hbounded, hk⟩ | ⟨hbounded, hk | hk⟩⟩
    · rw [hk]
      refine .inl ⟨?_, hbounded⟩
      have hpos : (plainString (c :: rest)).length = 0 → (c :: rest).length < n := fun h =>
        hlt ((plainString_eq_nil hblank).mp (List.length_eq_zero_iff.mp h))
      have := length_plainString_le (c :: rest)
      simp only [Round.Consumes, Parse.attach, List.length_drop]
      omega
    · rw [hk]
      exact .inl ⟨trivial, hbounded⟩
    · rw [hk]
      exact .inr ⟨trivial, hbounded⟩
    · rw [hk]
      exact .inr ⟨trivial, hbounded⟩
  · rw [if_neg hcount]
    exact .inr ⟨trivial, fun h => hcount h.1⟩

lemma parseQuoted_judged {n : ℕ} (hn : rest.length < n) :
    (parseQuoted s name rest).Judged n (rest.head? ≠ some (byte '"')) := by
  unfold parseQuoted
  rcases quotedEnd rest.length rest [] le_rfl with ⟨hp, hhead⟩ | ⟨more, rest', hok, hle, hmore⟩
  · rw [hp]
    exact .inl ⟨trivial, hhead⟩
  · rw [hok]
    rw [List.nil_append]
    by_cases hnil : more = []
    · simp only [hnil, if_true]
      exact .inr ⟨trivial, fun h => h (hmore.mp hnil)⟩
    · simp only [hnil, if_false]
      refine .inl ⟨?_, fun h => hnil (hmore.mpr h)⟩
      split_ifs
      · simp only [Round.Consumes, Parse.attach]
        omega
      · trivial

/-! ### Rounds -/

lemma parseValue_judged {n : ℕ} (hblank : ∀ c ∈ v.head?, isBlank c = false) (hn : v.length ≤ n)
    (hpos : 0 < n) (hlt : ∀ c ∈ v.head?, isStringEnd c = true → c ≠ byte '#' → v.length < n) :
    (parseValue s name v).Judged n (ClearValue v) := by
  cases v with
  | nil => exact .inl ⟨hpos, trivial⟩
  | cons c tail =>
    rw [List.length_cons] at hn
    unfold parseValue ClearValue
    by_cases hhash : c = byte '#'
    · subst hhash
      refine .inl ⟨?_, .inl rfl⟩
      have := (List.dropWhile_suffix (l := tail) (· ≠ byte '\n')).length_le
      have hdrop : (byte '#' :: tail).dropWhile (· ≠ byte '\n')
          = tail.dropWhile (· ≠ byte '\n') := rfl
      simp only [if_true, Round.Consumes, hdrop]
      omega
    by_cases hopen : c = byte '{'
    · subst hopen
      refine .inl ⟨?_, .inr (.inl rfl)⟩
      simp only [hhash, if_false, if_true, Round.Consumes, Parse.openArray]
      omega
    simp only [hhash, hopen, if_false, false_or]
    rcases readNumber_cases (v := c :: tail) (by simp) with
      ⟨hends, hread⟩ | ⟨hends, hitem, x, rest, hread, hle⟩ | ⟨hends, hitem, hread⟩
    · rw [hread]
      exact .inr ⟨trivial, fun h => h.1 hends⟩
    · have hquote : c ≠ byte '"' := by
        rintro rfl
        exact absurd hitem not_isNumberItem_quote
      rw [hread]
      rw [List.length_cons] at hle
      refine .inl ⟨?_, hends, fun h => absurd h hquote, fun _ => .inl hitem⟩
      simp only [Round.Consumes, Parse.attach]
      omega
    · rw [hread]
      simp only [hends, not_false_eq_true, true_and, hitem, false_or]
      by_cases hquote : c = byte '"'
      · simp only [hquote, if_true, true_imp_iff, ne_eq, not_true_eq_false, false_imp_iff, and_true]
        exact parseQuoted_judged (by omega)
      · simp only [hquote, if_false, false_imp_iff, ne_eq, not_false_eq_true, true_imp_iff,
          true_and]
        exact parsePlain_judged (hblank c rfl) (by simpa using hn) fun hend => hlt c rfl hend hhash

lemma closeArray_consumes {n : ℕ} (hn : rest.length < n) : (s.closeArray rest).Consumes n := by
  unfold Parse.closeArray
  cases s.parents with
  | nil => trivial
  | cons p parents => exact hn

lemma parseNamed_judged {n : ℕ} (hn : rest.length ≤ n) (hpos : 0 < n)
    (hname : name ≠ [] → rest.length < n)
    (hitem : name = [] → ∀ c ∈ rest.head?, c ≠ byte ',' ∧ isWhitespace c = false) :
    (parseNamed s name rest).Judged n (∀ v, valueAfter name rest = some v → ClearValue v) := by
  cases rest with
  | nil =>
    refine .inl ⟨?_, by rintro v ⟨⟩⟩
    unfold parseNamed
    split_ifs
    · exact hpos
    · exact hpos
  | cons c tail =>
    unfold parseNamed valueAfter
    rw [List.length_cons] at hn hname
    by_cases hsep : c = byte ',' ∨ c = byte '\n'
    · have hne : name ≠ [] := by
        rintro rfl
        obtain ⟨hcomma, hspace⟩ := hitem rfl c rfl
        rcases hsep with rfl | rfl
        · exact hcomma rfl
        · cases hspace
      have hvalue : c ≠ byte '=' := by
        rcases hsep with rfl | rfl <;> decide
      simp only [hsep, if_true, hne, if_false, hvalue, false_and]
      refine .inl ⟨?_, by rintro v ⟨⟩⟩
      exact hname hne
    by_cases hclose : c = byte '}'
    · subst hclose
      simp only [hsep, if_false, if_true, ne_eq, not_true_eq_false, and_false]
      refine .inl ⟨?_, by rintro v ⟨⟩⟩
      split_ifs
      · exact closeArray_consumes (by omega)
      · exact closeArray_consumes (by omega)
    simp only [hsep, hclose, if_false]
    rw [not_or] at hsep
    by_cases hvalue : c = byte '='
    · have hle := (List.dropWhile_suffix (l := tail) isBlank).length_le
      simp only [hvalue, or_true, if_true, ne_eq, not_true_eq_false, if_false, Option.some.injEq,
        forall_eq']
      refine parseValue_judged ?_ (by omega) hpos (fun _ _ _ _ => by omega)
      intro d hd
      cases hdrop : tail.dropWhile isBlank with
      | nil => rw [hdrop] at hd; cases hd
      | cons e rest =>
        rw [hdrop] at hd
        obtain rfl := Option.some.inj hd
        exact head_dropWhile hdrop
    by_cases hnil : name = []
    · simp only [hnil, hvalue, ne_eq, not_true_eq_false, or_self, if_false, hsep.1, hclose,
        not_false_eq_true, and_self, if_true, Option.some.injEq, forall_eq']
      have hspace := (hitem hnil c rfl).2
      refine parseValue_judged ?_ (by simpa using hn) hpos ?_
      · intro d hd
        obtain rfl := Option.some.inj hd
        simp [isBlank, hspace]
      · intro d hd hend hhash
        obtain rfl := Option.some.inj hd
        simp [isStringEnd, hsep.1, hsep.2, hhash] at hend
    · simp only [hnil, hvalue, ne_eq, not_false_eq_true, true_or, if_true, if_false, false_and]
      exact .inl ⟨trivial, by rintro v ⟨⟩⟩

lemma take_takeWhile (p : UInt8 → Bool) (l : List UInt8) :
    l.take (l.takeWhile p).length = l.takeWhile p :=
  (List.prefix_iff_eq_take.mp (List.takeWhile_prefix p)).symm

lemma drop_takeWhile (p : UInt8 → Bool) (l : List UInt8) :
    l.drop (l.takeWhile p).length = l.dropWhile p := by
  conv_lhs => rw [← List.takeWhile_append_dropWhile (p := p) (l := l)]
  rw [List.drop_append]
  simp

/-- **A round** that does not start at a comma goes well if and only if it is clear. -/
lemma parseRound_judged (hcomma : (itemText s.rest).head? ≠ some (byte ',')) :
    (parseRound s).Judged s.rest.length (Clear s.rest) := by
  have hle : (itemText s.rest).length ≤ s.rest.length := (List.dropWhile_suffix _).length_le
  unfold parseRound
  cases hitem : itemText s.rest with
  | nil =>
    rw [itemText] at hitem
    rw [hitem]
    refine .inl ⟨trivial, hcomma, ?_, ?_⟩
    · rw [itemText, hitem]
      simp [itemName]
    · rw [itemText, hitem]
      rintro - v ⟨⟩
  | cons c tail =>
    have hspace : isWhitespace c = false := head_dropWhile hitem
    rw [hitem, List.length_cons] at hle
    have hclear : Clear s.rest ↔ (itemName (c :: tail)).length < 2 ^ 32 - 9 ∧
        ((itemName (c :: tail)).length ≤ stringMaxLength →
        ∀ v, valueAfter (itemName (c :: tail)) (itemRest (c :: tail)) = some v → ClearValue v) := by
      constructor
      · intro h
        have hname := h.name
        have hvalue := h.value
        rw [hitem] at hname hvalue
        exact ⟨hname, hvalue⟩
      · rintro ⟨hname, hvalue⟩
        refine ⟨hcomma, ?_, ?_⟩
        · rw [hitem]
          exact hname
        · rw [hitem]
          exact hvalue
    rw [itemText] at hitem
    rw [hitem, hclear]
    by_cases hident : isIdentifierStart c = true
    · have hid : isIdentifier c = true := by simp [isIdentifier, hident]
      have hn : itemName (c :: tail) = (c :: tail).takeWhile isIdentifier := by
        simp [itemName, hident]
      have hr : itemRest (c :: tail) = ((c :: tail).dropWhile isIdentifier).dropWhile isBlank := by
        simp [itemRest, hident]
      have hlen : (((c :: tail).dropWhile isIdentifier).dropWhile isBlank).length ≤
          tail.length := by
        refine (List.dropWhile_suffix _).length_le.trans ?_
        rw [List.dropWhile_cons, if_pos hid]
        exact (List.dropWhile_suffix _).length_le
      simp only [hident, if_true]
      rw [hn, hr, counted]
      by_cases hlong : ((c :: tail).takeWhile isIdentifier).length < 2 ^ 32
      · rw [if_pos hlong]
        simp only
        have hne : ((c :: tail).takeWhile isIdentifier).length ≠ 0 := by simp [hid]
        have hbounded : Bounded (c :: tail) ((c :: tail).takeWhile isIdentifier).length ↔
            ((c :: tail).takeWhile isIdentifier).length < 2 ^ 32 - 9 := by simp [Bounded, hid]
        rcases smmAlloc_cases (c :: tail) hlong with
          ⟨hterm, hb, k, hk, hknown⟩ | ⟨hterm, ⟨hb, hk⟩ | ⟨hb, hk | hk⟩⟩
        · rw [hk, hknown hne]
          simp only [hbounded.mp hb, hterm.1, true_and, true_imp_iff]
          rw [take_takeWhile, drop_takeWhile]
          refine parseNamed_judged (by omega) (by omega) (fun _ => by omega) fun h => ?_
          simp [hid] at h
        · rw [hk]
          refine .inl ⟨trivial, hbounded.mp hb, fun hle => absurd ⟨hle, fun h => ?_⟩ hterm⟩
          exact absurd h hne
        · rw [hk]
          exact .inr ⟨trivial, fun h => hb (hbounded.mpr h.1)⟩
        · rw [hk]
          exact .inr ⟨trivial, fun h => hb (hbounded.mpr h.1)⟩
      · rw [if_neg hlong]
        exact .inr ⟨trivial, fun h => hlong (h.1.trans (by norm_num))⟩
    · have hn : itemName (c :: tail) = [] := by simp [itemName, hident]
      have hr : itemRest (c :: tail) = c :: tail := by simp [itemRest, hident]
      simp only [hident, Bool.false_eq_true, if_false]
      rw [hn, hr]
      simp only [List.length_nil, Nat.zero_le, true_imp_iff]
      rw [and_iff_right (by norm_num)]
      refine parseNamed_judged (by simpa using hle) (by omega) (fun h => absurd rfl h) ?_
      rintro - d hd
      obtain rfl := Option.some.inj hd
      refine ⟨fun h => hcomma ?_, hspace⟩
      rw [itemText, hitem, h]
      rfl

lemma parseRound_comma (hcomma : (itemText s.rest).head? = some (byte ',')) :
    parseRound s = .next { s with
      rest := itemText s.rest } := by
  unfold parseRound
  cases hitem : itemText s.rest with
  | nil => rw [hitem] at hcomma; cases hcomma
  | cons c tail =>
    rw [hitem] at hcomma
    obtain rfl := Option.some.inj hcomma
    rw [itemText] at hitem
    rw [hitem]
    rfl

lemma itemText_idem (text : List UInt8) : itemText (itemText text) = itemText text :=
  List.dropWhile_idempotent _ _

/-! ### The main loop -/

/-- A result of the main loop: NULL, an explicit panic, or the array that `out` points to, which
is the root if all brackets are closed. -/
def Round.Proper : Round → Prop
  | .next _ => False
  | .done s => s.opened = s.closed → s.parents = [] ∧ s.name = []
  | .null => True
  | .panic => True
  | .fault => False
  | .spin => False

/-- The main loop ends properly after some rounds, without a read past the end of the text. -/
def Finishes (text : List UInt8) : Prop :=
  ∃ n s, roundsFrom (Parse.start text) n = some s ∧ (parseRound s).Proper

/-- The arrays around the one that is open are those of the open brackets; the outermost has no
name. -/
structure Nested (s : Parse) : Prop where
  depth : s.opened = s.closed + s.parents.length
  root : (s.name :: s.parents.map Prod.fst).getLast? = some []

/-- What holds of the state that a round leaves. -/
def Round.Leaves (P : Parse → Prop) : Round → Prop
  | .next s => P s
  | .done s => P s
  | _ => True

lemma Nested.attach (h : Nested s) (tag : Tag) (rest : List UInt8) : Nested (s.attach tag rest) :=
  ⟨h.depth, h.root⟩

lemma Nested.move (h : Nested s) (rest : List UInt8) : Nested { s with
    rest := rest } :=
  ⟨h.depth, h.root⟩

lemma Nested.openArray (h : Nested s) (name rest : List UInt8) :
    Nested (s.openArray name rest) := by
  refine ⟨?_, ?_⟩
  · simp only [Parse.openArray, List.length_cons, h.depth]
    omega
  · simpa [Parse.openArray] using h.root

lemma Nested.closeArray (h : Nested s) (rest : List UInt8) : (s.closeArray rest).Leaves Nested := by
  unfold Parse.closeArray
  cases hp : s.parents with
  | nil => trivial
  | cons p parents =>
    have hdepth := h.depth
    have hroot := h.root
    rw [hp] at hdepth hroot
    refine ⟨?_, ?_⟩
    · simp only [List.length_cons] at hdepth ⊢
      omega
    · simpa using hroot

lemma parseQuoted_nested (h : Nested s) : (parseQuoted s name rest).Leaves Nested := by
  unfold parseQuoted
  split
  · trivial
  · split_ifs
    · trivial
    · exact h.attach _ _
    · trivial

lemma parsePlain_nested (h : Nested s) : (parsePlain s name rest).Leaves Nested := by
  unfold parsePlain
  split
  · trivial
  · trivial
  · trivial
  · split
    · trivial
    · trivial
    · trivial
    · exact h.attach _ _

lemma parseValue_nested (h : Nested s) : (parseValue s name rest).Leaves Nested := by
  unfold parseValue
  split
  · exact h.attach _ _
  · split_ifs with hhash hopen hquote
    · exact h.move _
    · exact h.openArray _ _
    · split
      · trivial
      · trivial
      · trivial
      · exact h.attach _ _
      · exact parseQuoted_nested h
    · split
      · trivial
      · trivial
      · trivial
      · exact h.attach _ _
      · exact parsePlain_nested h

lemma parseNamed_nested (h : Nested s) : (parseNamed s name rest).Leaves Nested := by
  unfold parseNamed
  split
  · split_ifs
    · exact h.move _
    · exact h.attach _ _
  · split_ifs
    · exact h.move _
    · exact h.attach _ _
    · exact h.closeArray _
    · exact (h.attach _ _).closeArray _
    · trivial
    · exact parseValue_nested h
    · exact parseValue_nested h

lemma parseRound_nested (h : Nested s) : (parseRound s).Leaves Nested := by
  unfold parseRound
  split
  · exact h.move _
  · split_ifs
    · split
      · trivial
      · trivial
      · trivial
      · split
        · trivial
        · trivial
        · trivial
        · exact parseNamed_nested h
    · exact parseNamed_nested h

lemma roundsFrom_nested : ∀ (n : ℕ) (s : Parse), Nested s → roundsFrom s n = some s' → Nested s'
  | 0, s, h, hr => Option.some.inj hr ▸ h
  | n + 1, s, h, hr => by
    have hstep := parseRound_nested h
    rw [roundsFrom] at hr
    cases hround : parseRound s with
    | next t =>
      rw [hround] at hr hstep
      exact roundsFrom_nested n t hstep hr
    | _ =>
      rw [hround] at hr
      cases hr

lemma nested_start (text : List UInt8) : Nested (Parse.start text) := ⟨rfl, rfl⟩

lemma roundsFrom_succ {t : Parse} : ∀ (n : ℕ) (s : Parse), roundsFrom s n = some s' →
    parseRound s' = .next t → roundsFrom s (n + 1) = some t
  | 0, s, hr, ht => by
    obtain rfl := Option.some.inj hr
    rw [roundsFrom, ht]
    rfl
  | n + 1, s, hr, ht => by
    rw [roundsFrom] at hr ⊢
    cases hround : parseRound s with
    | next u =>
      rw [hround] at hr
      exact roundsFrom_succ n u hr ht
    | _ =>
      rw [hround] at hr
      cases hr

lemma Nested.proper (h : Nested s) : (Round.done s).Proper := by
  intro hclosed
  have hdepth := h.depth
  have hroot := h.root
  have hnil : s.parents = [] := List.length_eq_zero_iff.mp (by omega)
  rw [hnil] at hroot
  exact ⟨hnil, by simpa using hroot⟩

lemma exists_proper (text : List UInt8)
    (hclear : ∀ n s, roundsFrom (Parse.start text) n = some s → Clear s.rest) :
    ∀ (k n : ℕ) (s : Parse), s.rest.length ≤ k → roundsFrom (Parse.start text) n = some s →
      Finishes text
  | k, n, s, hk, hr => by
    have hc := hclear n s hr
    have hcons : (parseRound s).Consumes s.rest.length := by
      rcases parseRound_judged hc.comma with h | h
      · exact h.1
      · exact absurd hc h.2
    have hnested := parseRound_nested (roundsFrom_nested n _ (nested_start text) hr)
    cases hround : parseRound s with
    | next t =>
      rw [hround] at hcons
      cases k with
      | zero =>
        rw [Round.Consumes] at hcons
        omega
      | succ k =>
        refine exists_proper text hclear k (n + 1) t ?_ (roundsFrom_succ n _ hr hround)
        rw [Round.Consumes] at hcons
        omega
    | done t =>
      rw [hround] at hnested
      refine ⟨n, s, hr, ?_⟩
      rw [hround]
      exact hnested.proper
    | null => exact ⟨n, s, hr, by rw [hround]; trivial⟩
    | panic => exact ⟨n, s, hr, by rw [hround]; trivial⟩
    | fault =>
      rw [hround] at hcons
      exact hcons.elim
    | spin =>
      rw [hround] at hcons
      exact hcons.elim

lemma roundsFrom_add {t : Parse} : ∀ (m : ℕ) (s : Parse) (k : ℕ), roundsFrom s m = some t →
    roundsFrom s (m + k) = roundsFrom t k
  | 0, s, k, h => by
    obtain rfl := Option.some.inj h
    rw [Nat.zero_add]
  | m + 1, s, k, h => by
    rw [Nat.add_right_comm]
    rw [roundsFrom] at h ⊢
    cases hround : parseRound s with
    | next u =>
      rw [hround] at h
      exact roundsFrom_add m u k h
    | _ =>
      rw [hround] at h
      cases h

lemma roundsFrom_comma : ∀ (k : ℕ) (s : Parse), (itemText s.rest).head? = some (byte ',') →
    roundsFrom s k = some s' → (itemText s'.rest).head? = some (byte ',')
  | 0, s, h, hr => Option.some.inj hr ▸ h
  | k + 1, s, h, hr => by
    rw [roundsFrom, parseRound_comma h] at hr
    refine roundsFrom_comma k _ ?_ hr
    rw [itemText_idem]
    exact h

lemma not_proper_of_roundsFrom {n : ℕ} (h : roundsFrom s (n + 1) = some s') :
    ¬ (parseRound s).Proper := by
  rw [roundsFrom] at h
  cases hround : parseRound s with
  | next t => exact id
  | _ =>
    rw [hround] at h
    cases h

lemma Finishes.clear {text : List UInt8} (h : Finishes text) {n : ℕ}
    (hr : roundsFrom (Parse.start text) n = some s) : Clear s.rest := by
  obtain ⟨m, t, ht, hproper⟩ := h
  have hle : n ≤ m := by
    by_contra hlt
    obtain ⟨k, rfl⟩ : ∃ k, n = m + (k + 1) := ⟨n - m - 1, by omega⟩
    rw [roundsFrom_add m _ _ ht] at hr
    exact not_proper_of_roundsFrom hr hproper
  obtain ⟨k, rfl⟩ := Nat.exists_eq_add_of_le hle
  rw [roundsFrom_add n _ _ hr] at ht
  by_cases hcomma : (itemText s.rest).head? = some (byte ',')
  · -- the last round is at the same comma
    have := roundsFrom_comma k s hcomma ht
    rw [parseRound_comma this] at hproper
    exact hproper.elim
  · rcases parseRound_judged hcomma with hgood | ⟨hfails, -⟩
    · exact hgood.2
    · exfalso
      cases k with
      | zero =>
        obtain rfl := Option.some.inj ht
        cases hround : parseRound s with
        | fault => rw [hround] at hproper; exact hproper
        | spin => rw [hround] at hproper; exact hproper
        | _ => rw [hround] at hfails; exact hfails
      | succ k =>
        rw [roundsFrom] at ht
        cases hround : parseRound s with
        | next u => rw [hround] at hfails; exact hfails
        | _ =>
          rw [hround] at ht
          cases ht

/-- **The text parser ends properly** if and only if each of its rounds is at a clear item. -/
theorem finishes_iff (text : List UInt8) : Finishes text ↔
    ∀ n s, roundsFrom (Parse.start text) n = some s → Clear s.rest := by
  constructor
  · intro h n s hr
    exact h.clear hr
  · intro h
    exact exists_proper text h text.length 0 (Parse.start text) le_rfl rfl

/-- A name and a comma: the comma is never consumed. -/
theorem not_finishes_comma : ¬ Finishes [byte 'a', byte ','] := by
  intro h
  have hclear := h.clear (n := 1) (s := ⟨[byte ','], [], [.none [byte 'a']], [], 0, 0⟩) rfl
  exact hclear.comma rfl

end

end KernelModel.Config
