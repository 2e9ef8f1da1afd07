import KernelModel.Dns
import Mathlib.Data.List.GetD
import Mathlib.Data.List.TakeWhile

/-!
Names in packets: what the encoder writes and what the decoder makes of it.

A label goes behind a byte with its length. A length byte with both top bits set is the start of
a compression pointer, and the encoder writes such bytes too.
-/

namespace KernelModel.Dns

/-! ### Texts and wires -/

/-- The labels with dots between them. -/
def dotted : List (List UInt8) → List UInt8
  | [] => []
  | [l] => l
  | l :: l' :: ls => l ++ dot :: dotted (l' :: ls)

/-- The labels behind their lengths, and an empty one at the end. -/
def wire : List (List UInt8) → List UInt8
  | [] => [0]
  | l :: ls => UInt8.ofNat l.length :: (l ++ wire ls)

/-- What can stand between two dots. -/
def GoodLabel (l : List UInt8) : Prop := l ≠ [] ∧ ∀ c ∈ l, c ≠ 0 ∧ c ≠ dot

instance (l : List UInt8) : Decidable (GoodLabel l) := inferInstanceAs (Decidable (_ ∧ _))

/-- A name of one or more labels. -/
structure Name where
  labels : List (List UInt8)
  labels_ne : labels ≠ []
  good : ∀ l ∈ labels, GoodLabel l

def Name.text (name : Name) : List UInt8 := dotted name.labels

variable {l : List UInt8} {ls : List (List UInt8)}

lemma dotted_cons (hls : ls ≠ []) : dotted (l :: ls) = l ++ dot :: dotted ls := by
  cases ls with
  | nil => exact absurd rfl hls
  | cons l' ls => rfl

lemma length_wire (hls : ls ≠ []) : (wire ls).length = (dotted ls).length + 2 := by
  induction ls with
  | nil => exact absurd rfl hls
  | cons l ls ih =>
    rw [wire, List.length_cons, List.length_append]
    cases ls with
    | nil => simp [wire, dotted]
    | cons l' ls =>
      rw [ih (List.cons_ne_nil _ _), dotted_cons (List.cons_ne_nil _ _), List.length_append,
        List.length_cons]
      omega

lemma length_wire_cons : (wire (l :: ls)).length = l.length + 1 + (wire ls).length := by
  rw [wire, List.length_cons, List.length_append]
  omega

lemma wire_pos : 0 < (wire ls).length := by
  cases ls <;> simp [wire]

/-! ### Encoding -/

lemma firstLabel_dotted (hl : GoodLabel l) : firstLabel (dotted (l :: ls)) = l := by
  have hall : ∀ c ∈ l, decide (c ≠ 0 ∧ c ≠ dot) = true := fun c hc => decide_eq_true (hl.2 c hc)
  cases ls with
  | nil =>
    rw [dotted, firstLabel]
    exact List.takeWhile_eq_self_iff.mpr hall
  | cons l' ls =>
    rw [dotted, firstLabel, List.takeWhile_append_of_pos hall, List.takeWhile_cons_of_neg (by simp),
      List.append_nil]

lemma afterLabel_dotted (hl : GoodLabel l) : afterLabel (dotted (l :: ls)) = dotted ls := by
  unfold afterLabel
  rw [firstLabel_dotted hl]
  cases ls with
  | nil =>
    simp only [dotted, List.drop_length]
    rfl
  | cons l' ls =>
    rw [dotted, List.drop_left]
    rfl

lemma encodeFrom_dotted {maxSize i : ℕ} {out : Buffer} (hgood : ∀ l ∈ ls, GoodLabel l)
    (haccept : (encodeFrom maxSize (dotted ls) out i).1 ≠ 0) :
    (∀ l ∈ ls, l.length ≤ 255) ∧
      (encodeFrom maxSize (dotted ls) out i).1 = i + (wire ls).length ∧
      (∀ k < i, (encodeFrom maxSize (dotted ls) out i).2 k = out k) ∧
      ∀ k < (wire ls).length,
        (encodeFrom maxSize (dotted ls) out i).2 (i + k) = (wire ls).getD k 0 := by
  induction ls generalizing i out with
  | nil =>
    have hfirst : firstLabel (dotted []) = [] := rfl
    rw [encodeFrom] at haccept ⊢
    simp only [hfirst, List.length_nil, Nat.not_lt_zero, if_false, gt_iff_lt, Nat.add_zero,
      ne_eq, not_true_eq_false] at haccept ⊢
    split_ifs at haccept ⊢ with hroom
    · exact absurd rfl haccept
    · refine ⟨fun l hl => absurd hl List.not_mem_nil, rfl, fun k hk => ?_, fun k hk => ?_⟩
      · simp only [writeLabel, List.length_nil]
        rw [if_neg (by omega), if_neg (by omega)]
      · obtain rfl : k = 0 := by
          rw [wire, List.length_singleton] at hk
          omega
        simp only [writeLabel, Nat.add_zero, if_true, List.length_nil]
        rfl
  | cons l ls ih =>
    have hl := hgood l List.mem_cons_self
    have hpos : l.length ≠ 0 := fun h0 => hl.1 (List.length_eq_zero_iff.mp h0)
    rw [encodeFrom] at haccept ⊢
    simp only [firstLabel_dotted hl, afterLabel_dotted hl] at haccept ⊢
    rw [if_pos hpos] at haccept ⊢
    split_ifs at haccept ⊢ with hlong hroom
    · exact absurd rfl haccept
    · exact absurd rfl haccept
    · obtain ⟨hlen, hend, hkeep, hrest⟩ :=
        ih (fun l' hl' => hgood l' (List.mem_cons_of_mem _ hl')) haccept
      refine ⟨?_, ?_, fun k hk => ?_, fun k hk => ?_⟩
      · rw [List.forall_mem_cons]
        exact ⟨by omega, hlen⟩
      · rw [hend, length_wire_cons]
        omega
      · rw [hkeep k (by omega), writeLabel, if_neg (by omega), if_neg (by omega)]
      · rw [length_wire_cons] at hk
        rw [wire]
        rcases Nat.lt_or_ge k (l.length + 1) with hin | hafter
        · rw [hkeep _ (by omega)]
          cases k with
          | zero =>
            rw [Nat.add_zero, writeLabel, if_pos rfl]
            rfl
          | succ k =>
            rw [writeLabel, if_neg (by omega), if_pos (by omega), List.getD_cons_succ,
              List.getD_append _ _ _ _ (by omega), show i + (k + 1) - (i + 1) = k by omega]
        · obtain ⟨k, rfl⟩ := Nat.exists_eq_add_of_le hafter
          rw [show i + (l.length + 1 + k) = i + (l.length + 1) + k by omega, hrest k (by omega),
            show l.length + 1 + k = (l.length + k) + 1 by omega, List.getD_cons_succ,
            List.getD_append_right _ _ _ _ (by omega), Nat.add_sub_cancel_left]

lemma encodeFrom_accepts {maxSize i : ℕ} {out : Buffer} (hgood : ∀ l ∈ ls, GoodLabel l)
    (hlen : ∀ l ∈ ls, l.length ≤ 255) (hroom : i + (wire ls).length ≤ maxSize) :
    (encodeFrom maxSize (dotted ls) out i).1 ≠ 0 := by
  induction ls generalizing i out with
  | nil =>
    have hfirst : firstLabel (dotted []) = [] := rfl
    rw [wire, List.length_singleton] at hroom
    rw [encodeFrom]
    simp only [hfirst, List.length_nil, Nat.not_lt_zero, if_false, gt_iff_lt, Nat.add_zero,
      ne_eq, not_true_eq_false]
    rw [if_neg (by omega)]
    exact Nat.succ_ne_zero _
  | cons l ls ih =>
    have hl := hgood l List.mem_cons_self
    have hl255 := hlen l List.mem_cons_self
    have hpos : l.length ≠ 0 := fun h0 => hl.1 (List.length_eq_zero_iff.mp h0)
    rw [length_wire_cons] at hroom
    have hwire : 0 < (wire ls).length := wire_pos
    rw [encodeFrom]
    simp only [firstLabel_dotted hl, afterLabel_dotted hl]
    rw [if_neg (by omega), if_neg (by omega), if_pos hpos]
    exact ih (fun l' hl' => hgood l' (List.mem_cons_of_mem _ hl'))
      (fun l' hl' => hlen l' (List.mem_cons_of_mem _ hl')) (by omega)

/-! ### Decoding -/

lemma ofNat_length (hl : l.length < 256) : (UInt8.ofNat l.length).toNat = l.length := by
  rw [UInt8.toNat_ofNat', Nat.mod_eq_of_lt hl]

section

variable {data out : Buffer} {maxSize outLength o u : ℕ}

lemma wire_tail (hdata : ∀ k < (wire (l :: ls)).length, data (o + k) = (wire (l :: ls)).getD k 0) :
    data o = UInt8.ofNat l.length ∧ (∀ k < l.length, data (o + 1 + k) = l.getD k 0) ∧
      ∀ k < (wire ls).length, data (o + 1 + l.length + k) = (wire ls).getD k 0 := by
  rw [length_wire_cons] at hdata
  refine ⟨hdata 0 (by omega), fun k hk => ?_, fun k hk => ?_⟩
  · rw [Nat.add_assoc, Nat.add_comm 1 k, hdata (k + 1) (by omega), wire, List.getD_cons_succ,
      List.getD_append _ _ _ _ hk]
  · rw [show o + 1 + l.length + k = o + (l.length + k + 1) by omega,
      hdata (l.length + k + 1) (by omega), wire, List.getD_cons_succ,
      List.getD_append_right _ _ _ _ (by omega), Nat.add_sub_cancel_left]

lemma decodeName_wire {fuel : ℕ} (hgood : ∀ l ∈ ls, GoodLabel l)
    (hshort : ∀ l ∈ ls, l.length < 192)
    (hdata : ∀ k < (wire ls).length, data (o + k) = (wire ls).getD k 0)
    (hsize : o + (wire ls).length ≤ maxSize) (hroom : u + (wire ls).length ≤ outLength + 1)
    (hfuel : ls.length < fuel) :
    ∃ out', decodeName data maxSize outLength fuel o out u =
        some (.ok (o + (wire ls).length, out')) ∧
      (∀ k, k + 1 < u → out' k = out k) ∧ (ls = [] → out' = out) ∧
      (ls ≠ [] → (u ≠ 0 → out' (u - 1) = dot) ∧
        ∀ k < (dotted ls).length + 1, out' (u + k) = (dotted ls ++ [0]).getD k 0) := by
  induction ls generalizing fuel o u out with
  | nil =>
    obtain ⟨fuel, rfl⟩ := Nat.exists_eq_succ_of_ne_zero (Nat.ne_of_gt hfuel)
    have hzero : (data o).toNat = 0 := by
      have h0 := hdata 0 wire_pos
      rw [Nat.add_zero] at h0
      rw [h0]
      rfl
    have hlen : (wire []).length = 1 := rfl
    refine ⟨out, ?_, fun _ _ => rfl, fun _ => rfl, fun h => absurd rfl h⟩
    rw [decodeName_end (by omega) hzero, hlen]
  | cons l ls ih =>
    obtain ⟨fuel, rfl⟩ := Nat.exists_eq_succ_of_ne_zero (show fuel ≠ 0 by omega)
    have hl := hgood l List.mem_cons_self
    have hlen := hshort l List.mem_cons_self
    have hpos : l.length ≠ 0 := fun h0 => hl.1 (List.length_eq_zero_iff.mp h0)
    obtain ⟨hbyte, hlabel, htail⟩ := wire_tail hdata
    have hval : (data o).toNat = l.length := by
      rw [hbyte, ofNat_length (by omega)]
    have htop : ¬l.length >>> 6 = 3 := by
      rw [Nat.shiftRight_eq_div_pow]
      omega
    rw [length_wire_cons] at hsize hroom
    have hwire : 0 < (wire ls).length := wire_pos
    obtain ⟨out', hdec, hkeep, hnil, hcons⟩ :=
      @ih (putLabel data (o + 1) out u l.length) (o + 1 + l.length) (u + l.length + 1) fuel
        (fun l' hl' => hgood l' (List.mem_cons_of_mem _ hl'))
        (fun l' hl' => hshort l' (List.mem_cons_of_mem _ hl')) htail (by omega) (by omega)
        (by rw [List.length_cons] at hfuel; omega)
    refine ⟨out', ?_, fun k hk => ?_, fun h => absurd h (List.cons_ne_nil _ _), fun _ => ⟨?_, ?_⟩⟩
    · rw [decodeName_label (by omega) (by omega) (by rwa [hval]) (by omega) (by omega), hval, hdec,
        length_wire_cons,
        show o + 1 + l.length + (wire ls).length = o + (l.length + 1 + (wire ls).length) by omega]
    · rw [hkeep k (by omega), putLabel, if_neg (by omega), if_neg (by omega), if_neg (by omega)]
    · intro hu
      rw [hkeep _ (by omega), putLabel, if_neg (by omega), if_neg (by omega),
        if_pos ⟨hu, rfl⟩]
    · intro k hk
      -- the bytes of the label, what follows it, and the rest
      rcases Nat.lt_trichotomy k l.length with hin | rfl | hafter
      · have hout : out' (u + k) = l.getD k 0 := by
          rw [hkeep _ (by omega), putLabel, if_neg (by omega), if_pos (by omega),
            Nat.add_sub_cancel_left, hlabel k hin]
        rw [hout]
        cases ls with
        | nil => rw [dotted, List.getD_append _ _ _ _ hin]
        | cons l' ls =>
          rw [dotted, List.append_assoc, List.getD_append _ _ _ _ hin]
      · cases ls with
        | nil =>
          rw [hnil rfl, putLabel, if_pos rfl, dotted, List.getD_append_right _ _ _ _ le_rfl,
            Nat.sub_self]
          rfl
        | cons l' ls =>
          have hdot := (hcons (List.cons_ne_nil _ _)).1 (Nat.succ_ne_zero _)
          rw [Nat.add_sub_cancel] at hdot
          rw [hdot, dotted, List.append_assoc, List.getD_append_right _ _ _ _ le_rfl,
            Nat.sub_self]
          rfl
      · cases ls with
        | nil =>
          rw [dotted] at hk
          omega
        | cons l' ls =>
          obtain ⟨k, rfl⟩ := Nat.exists_eq_add_of_lt hafter
          rw [dotted, List.length_append, List.length_cons] at hk
          have hrest := (hcons (List.cons_ne_nil _ _)).2 k (by omega)
          have htext : (dotted (l :: l' :: ls) ++ [0]).getD (l.length + k + 1) 0 =
              (dotted (l' :: ls) ++ [0]).getD k 0 := by
            rw [dotted, List.append_assoc, List.getD_append_right _ _ _ _ (by omega),
              show l.length + k + 1 - l.length = k + 1 by omega, List.cons_append,
              List.getD_cons_succ]
          rw [htext, ← hrest, show u + (l.length + k + 1) = u + l.length + 1 + k by omega]

lemma long_wire (hlong : ∃ l' ∈ l :: ls, 192 ≤ l'.length) (h : l.length < 192) :
    1 < (wire ls).length := by
  obtain ⟨l', hl', h192⟩ := hlong
  rcases List.mem_cons.mp hl' with rfl | hmem
  · omega
  · cases ls with
    | nil => exact absurd hmem List.not_mem_nil
    | cons l'' ls =>
      have hwire : 0 < (wire ls).length := wire_pos
      rw [length_wire_cons]
      omega

/-- **A long label** is taken for a pointer, and the name seems to end with it. -/
lemma decodeName_long {fuel : ℕ} (hbyte : ∀ l ∈ ls, l.length ≤ 255)
    (hlong : ∃ l ∈ ls, 192 ≤ l.length)
    (hdata : ∀ k < (wire ls).length, data (o + k) = (wire ls).getD k 0) {r : ℕ × Buffer}
    (hdec : decodeName data maxSize outLength fuel o out u = some (.ok r)) :
    r.1 ≠ o + (wire ls).length := by
  induction ls generalizing fuel o u out with
  | nil =>
    obtain ⟨l, hl, -⟩ := hlong
    exact absurd hl List.not_mem_nil
  | cons l ls ih =>
    cases fuel with
    | zero => cases hdec
    | succ fuel =>
      have hlen := hbyte l List.mem_cons_self
      obtain ⟨hfirst, -, htail⟩ := wire_tail hdata
      have hval : (data o).toNat = l.length := by
        rw [hfirst, ofNat_length (by omega)]
      rw [length_wire_cons]
      have hwire : 0 < (wire ls).length := wire_pos
      -- a label that is taken, or a result that is too small
      by_cases hin : o < maxSize
      swap
      · rw [decodeName_past hin] at hdec
        cases hdec
        exact Nat.ne_of_lt (by omega)
      by_cases h0 : (data o).toNat = 0
      · rw [decodeName_end hin h0] at hdec
        cases hdec
        have hrest := long_wire hlong (by omega)
        exact Nat.ne_of_lt (by omega)
      by_cases h3 : (data o).toNat >>> 6 = 3
      · have hl192 : 192 ≤ l.length := by
          rw [Nat.shiftRight_eq_div_pow] at h3
          omega
        by_cases h1 : o + 1 < maxSize
        swap
        · rw [decodeName_cut hin h3 h1] at hdec
          cases hdec
        by_cases hj : pointerOffset (data o) (data (o + 1)) < sizeofPacket
        · rw [decodeName_header h1 h3 hj] at hdec
          cases hdec
          exact Nat.ne_of_lt (by omega)
        · rw [decodeName_pointer h1 h3 (by omega)] at hdec
          split at hdec
          · cases hdec
            dsimp only
            split_ifs <;> omega
          · rename_i hnot
            exact absurd hdec (hnot r.1 r.2)
      · by_cases hroom : (data o).toNat + u + 1 > outLength ∨ (data o).toNat + (o + 1) > maxSize
        · rw [decodeName_full hin h0 h3 hroom] at hdec
          cases hdec
          exact Nat.ne_of_lt (by omega)
        rw [decodeName_label hin h0 h3 (by omega) (by omega), hval] at hdec
        have hlong' : ∃ l ∈ ls, 192 ≤ l.length := by
          obtain ⟨l', hl', h192⟩ := hlong
          rcases List.mem_cons.mp hl' with rfl | hmem
          · rw [Nat.shiftRight_eq_div_pow] at h3
            omega
          · exact ⟨l', hmem, h192⟩
        have hne := ih (fun l' hl' => hbyte l' (List.mem_cons_of_mem _ hl')) hlong' htail hdec
        omega

end

/-! ### The round trip -/

/-- Decoding the first `n` bytes into a buffer of `256` bytes takes them all and gives the text. -/
def Decodes (bytes : Buffer) (n : ℕ) (text : List UInt8) (buffer : Buffer) : Prop :=
  ∃ fuel out, decodeName bytes n 256 fuel 0 buffer 0 = some (.ok (n, out)) ∧
    ∀ k < text.length + 1, out k = (text ++ [0]).getD k 0

lemma not_decodes_of_long (name : Name) {out buffer : Buffer} {maxSize : ℕ}
    (haccept : (encodeName name.text out maxSize).1 ≠ 0)
    (hlong : ∃ l ∈ name.labels, 192 ≤ l.length) :
    ¬Decodes (encodeName name.text out maxSize).2 (encodeName name.text out maxSize).1 name.text
      buffer := by
  obtain ⟨hlen, hend, -, hwire⟩ := encodeFrom_dotted name.good haccept
  rintro ⟨fuel, out', hdec, -⟩
  have hne := decodeName_long hlen hlong hwire hdec
  exact hne hend

/-- **Names come back** just when every label is shorter than `192` bytes. -/
theorem decodes_iff (name : Name) (out buffer : Buffer) (maxSize : ℕ)
    (haccept : (encodeName name.text out maxSize).1 ≠ 0) (hfit : name.text.length + 1 ≤ 256) :
    Decodes (encodeName name.text out maxSize).2 (encodeName name.text out maxSize).1 name.text
      buffer ↔ ∀ l ∈ name.labels, l.length < 192 := by
  constructor
  · intro h l hl
    by_contra hlong
    exact not_decodes_of_long name haccept ⟨l, hl, by omega⟩ h
  · intro hshort
    obtain ⟨hlen, hend, -, hwire⟩ := encodeFrom_dotted name.good haccept
    have hend' : (encodeName name.text out maxSize).1 = 0 + (wire name.labels).length := hend
    have htext : (wire name.labels).length = name.text.length + 2 := length_wire name.labels_ne
    obtain ⟨out', hdec, -, -, hout⟩ := @decodeName_wire name.labels
      (encodeName name.text out maxSize).2 buffer (encodeName name.text out maxSize).1 256 0 0
      (name.labels.length + 1) name.good hshort hwire (by omega) (by omega) (by omega)
    refine ⟨name.labels.length + 1, out', ?_, fun k hk => ?_⟩
    · rw [hdec, hend']
    · have hk' := (hout name.labels_ne).2 k hk
      rwa [Nat.zero_add] at hk'

/-- `ab.c` -/
def shortName : Name where
  labels := [[97, 98], [99]]
  labels_ne := List.cons_ne_nil _ _
  good := by decide +kernel

theorem shortName_decodes : Decodes (encodeName shortName.text (fun _ => 0) 500).2
    (encodeName shortName.text (fun _ => 0) 500).1 shortName.text fun _ => 0 :=
  (decodes_iff shortName _ _ 500
    (encodeFrom_accepts shortName.good (by decide) (by decide)) (by decide)).mpr (by decide)

/-- A name of one label, of `192` letters. -/
def longName : Name where
  labels := [List.replicate 192 97]
  labels_ne := List.cons_ne_nil _ _
  good := by
    intro l hl
    rw [List.mem_singleton.mp hl]
    refine ⟨fun hnil => ?_, fun c hc => ?_⟩
    · have hlen := congrArg List.length hnil
      rw [List.length_replicate] at hlen
      cases hlen
    · rw [List.eq_of_mem_replicate hc]
      decide

/-- The encoder accepts it, it fits the buffer, and it does not come back. -/
theorem longName_not_decodes : (encodeName longName.text (fun _ => 0) 500).1 ≠ 0 ∧
    longName.text.length + 1 ≤ 256 ∧
    ¬Decodes (encodeName longName.text (fun _ => 0) 500).2
      (encodeName longName.text (fun _ => 0) 500).1 longName.text fun _ => 0 := by
  have hlen : (List.replicate 192 (97 : UInt8)).length = 192 := List.length_replicate
  have haccept : (encodeName longName.text (fun _ => 0) 500).1 ≠ 0 := by
    refine encodeFrom_accepts longName.good ?_ ?_
    · intro l hl
      rw [List.mem_singleton.mp hl, hlen]
      decide
    · rw [longName, length_wire_cons, hlen]
      decide
  refine ⟨haccept, ?_, not_decodes_of_long longName haccept ⟨_, List.mem_singleton.mpr rfl, ?_⟩⟩
  · rw [Name.text, longName, dotted, hlen]
    decide
  · rw [hlen]

end KernelModel.Dns
