import KernelModel.Dns
import Mathlib.Data.Fintype.Basic
import Mathlib.Order.WellFounded

/-!
Replies of any content: where the questions end, and when decoding a name comes to an end.

Labels fill the buffer, so only compression pointers can keep the decoder running: those that
lead to each other in a circle.
-/

namespace KernelModel.Dns

open Relation LittleEndian

/-! ### What the bytes say -/

section

variable (data : Buffer)

/-- The byte at `o` is the first one of a pointer. -/
def IsPointer (o : ℕ) : Prop := (data o).toNat >>> 6 = 3

/-- The byte at `o` is the length of a label. -/
def IsLabel (o : ℕ) : Prop := (data o).toNat ≠ 0 ∧ ¬IsPointer data o

/-- Labels lead from one offset to the other. -/
inductive Labels : ℕ → ℕ → Prop
  | refl {o : ℕ} : Labels o o
  | head {o o' : ℕ} : IsLabel data o → Labels (o + 1 + (data o).toNat) o' → Labels o o'

/-- The name from `o` on has no pointer, and ends before `e`. -/
def PlainEnd (o e : ℕ) : Prop := ∃ o', Labels data o o' ∧ (data o').toNat = 0 ∧ e = o' + 1

/-- The name from `o` on goes on elsewhere, and the pointer ends before `e`. -/
def PointerEnd (o e : ℕ) : Prop := ∃ o', Labels data o o' ∧ IsPointer data o' ∧ e = o' + 2

/-- So many questions from one offset to the other: a name and four bytes each. -/
inductive QuestionsEnd : ℕ → ℕ → ℕ → Prop
  | zero {o : ℕ} : QuestionsEnd 0 o o
  | succ {n o e e' : ℕ} : PlainEnd data o e ∨ PointerEnd data o e →
      QuestionsEnd n (e + sizeofQuestion) e' → QuestionsEnd (n + 1) o e'

/-- The offset that the pointer in bytes `o` and `o + 1` leads to. -/
def target (o : ℕ) : ℕ := pointerOffset (data o) (data (o + 1))

variable (maxSize outLength : ℕ)

/-- A whole pointer at `o` that leads to `t`, behind the header. -/
def Follows (o t : ℕ) : Prop :=
  o + 1 < maxSize ∧ IsPointer data o ∧ sizeofPacket ≤ target data o ∧
    t = target data o - sizeofPacket

/-- A label that fits in the packet and the buffer, of which a part is used, or a pointer. -/
inductive Step : ℕ × ℕ → ℕ × ℕ → Prop
  | label {o u : ℕ} : o < maxSize → IsLabel data o → (data o).toNat + u + 1 ≤ outLength →
      o + 1 + (data o).toNat ≤ maxSize →
      Step (o, u) (o + 1 + (data o).toNat, u + (data o).toNat + 1)
  | pointer {o u t : ℕ} : Follows data maxSize o t → Step (o, u) (t, u)

/-- Wherever the name from `o` on leads, pointers are whole and do not go in a circle. -/
structure Decodable (o : ℕ) : Prop where
  whole : ∀ c, ReflTransGen (Step data maxSize outLength) (o, 0) c → c.1 < maxSize →
    IsPointer data c.1 → c.1 + 1 < maxSize
  noCircle : ∀ c, ReflTransGen (Step data maxSize outLength) (o, 0) c →
    ¬TransGen (Follows data maxSize) c.1 c.1

end

variable {data : Buffer} {maxSize outLength : ℕ}

/-! ### Decoding comes to an end -/

/-- Decoding at `c` ends without a fault. -/
def Ends (data : Buffer) (maxSize outLength fuel : ℕ) (c : ℕ × ℕ) : Prop :=
  ∃ out r, decodeName data maxSize outLength fuel c.1 out c.2 = some (.ok r)

lemma Ends.step {fuel : ℕ} {c c' : ℕ × ℕ} (h : Ends data maxSize outLength fuel c)
    (hs : Step data maxSize outLength c c') :
    ∃ fuel' < fuel, Ends data maxSize outLength fuel' c' := by
  obtain ⟨out, r, hdec⟩ := h
  cases fuel with
  | zero => cases hdec
  | succ fuel =>
    refine ⟨fuel, Nat.lt_succ_self _, ?_⟩
    cases hs with
    | label ho hl hroom hin =>
      rw [decodeName_label ho hl.1 hl.2 hroom hin] at hdec
      exact ⟨_, r, hdec⟩
    | pointer hf =>
      obtain ⟨h1, h3, hj, rfl⟩ := hf
      rw [decodeName_pointer h1 h3 hj] at hdec
      split at hdec
      · rename_i r' out' hrec
        exact ⟨out, _, hrec⟩
      · rename_i hnot
        exact absurd hdec (hnot r.1 r.2)

lemma Ends.reach {fuel : ℕ} {c c' : ℕ × ℕ} (h : Ends data maxSize outLength fuel c)
    (hs : ReflTransGen (Step data maxSize outLength) c c') :
    ∃ fuel', Ends data maxSize outLength fuel' c' := by
  induction hs with
  | refl => exact ⟨fuel, h⟩
  | tail _ hstep ih =>
    obtain ⟨fuel', h'⟩ := ih
    obtain ⟨fuel'', -, h''⟩ := h'.step hstep
    exact ⟨fuel'', h''⟩

lemma Ends.follow {fuel a b u : ℕ} (h : Ends data maxSize outLength fuel (a, u))
    (hf : TransGen (Follows data maxSize) a b) :
    ∃ fuel' < fuel, Ends data maxSize outLength fuel' (b, u) := by
  induction hf with
  | single hf => exact h.step (.pointer hf)
  | tail _ hf ih =>
    obtain ⟨fuel', hlt, h'⟩ := ih
    obtain ⟨fuel'', hlt', h''⟩ := h'.step (.pointer hf)
    exact ⟨fuel'', hlt'.trans hlt, h''⟩

lemma not_ends_of_circle {o u : ℕ} (hf : TransGen (Follows data maxSize) o o) (fuel : ℕ) :
    ¬Ends data maxSize outLength fuel (o, u) := by
  induction fuel using Nat.strong_induction_on with
  | _ fuel ih =>
    intro h
    obtain ⟨fuel', hlt, h'⟩ := h.follow hf
    exact ih fuel' hlt h'

lemma not_ends_of_cut {o u : ℕ} (ho : o < maxSize) (hp : IsPointer data o)
    (hcut : ¬o + 1 < maxSize) (fuel : ℕ) : ¬Ends data maxSize outLength fuel (o, u) := by
  rintro ⟨out, r, hdec⟩
  cases fuel with
  | zero => cases hdec
  | succ fuel =>
    rw [decodeName_cut ho hp hcut] at hdec
    cases hdec

/-- From a place whose pointer and label both lead to an end, for any buffer. -/
lemma exists_ends {o u : ℕ} (hwhole : o < maxSize → IsPointer data o → o + 1 < maxSize)
    (hpointer : ∀ t, Follows data maxSize o t → ∀ out, ∃ fuel r,
      decodeName data maxSize outLength fuel t out u = some (.ok r))
    (hlabel : ∀ c, Step data maxSize outLength (o, u) c → u < c.2 → ∀ out, ∃ fuel r,
      decodeName data maxSize outLength fuel c.1 out c.2 = some (.ok r)) (out : Buffer) :
    ∃ fuel r, decodeName data maxSize outLength fuel o out u = some (.ok r) := by
  by_cases ho : o < maxSize
  swap
  · exact ⟨1, _, decodeName_past ho⟩
  by_cases h0 : (data o).toNat = 0
  · exact ⟨1, _, decodeName_end ho h0⟩
  by_cases h3 : IsPointer data o
  · have h1 := hwhole ho h3
    by_cases hj : target data o < sizeofPacket
    · exact ⟨1, _, decodeName_header h1 h3 hj⟩
    · have hj' : sizeofPacket ≤ target data o := Nat.le_of_not_lt hj
      obtain ⟨fuel, r, hrec⟩ := hpointer _ ⟨h1, h3, hj', rfl⟩ out
      have heq := @decodeName_pointer data out maxSize outLength fuel o u h1 h3 hj'
      unfold target at hrec
      rw [hrec] at heq
      exact ⟨fuel + 1, _, heq⟩
  · by_cases hroom : (data o).toNat + u + 1 ≤ outLength ∧ o + 1 + (data o).toNat ≤ maxSize
    · obtain ⟨fuel, r, hrec⟩ := hlabel _ (.label ho ⟨h0, h3⟩ hroom.1 hroom.2) (by omega)
        (putLabel data (o + 1) out u (data o).toNat)
      exact ⟨fuel + 1, r, (decodeName_label ho h0 h3 hroom.1 hroom.2).trans hrec⟩
    · exact ⟨1, _, decodeName_full ho h0 h3 (by omega)⟩

/-- **Decoding ends** without a fault just when pointers are whole and do not go in a circle. -/
lemma decodable_iff (o : ℕ) (out : Buffer) :
    (∃ fuel r, decodeName data maxSize outLength fuel o out 0 = some (.ok r)) ↔
      Decodable data maxSize outLength o := by
  constructor
  · rintro ⟨fuel, r, hdec⟩
    have hends : Ends data maxSize outLength fuel (o, 0) := ⟨out, r, hdec⟩
    constructor
    · intro c hc hlt hp
      by_contra hcut
      obtain ⟨fuel', h'⟩ := hends.reach hc
      exact not_ends_of_cut hlt hp hcut fuel' h'
    · intro c hc hf
      obtain ⟨fuel', h'⟩ := hends.reach hc
      exact not_ends_of_circle hf fuel' h'
  · intro h
    -- on the room left in the buffer, and then along the pointers
    suffices hall : ∀ n u, outLength - u = n → ∀ a,
        ReflTransGen (Step data maxSize outLength) (o, 0) (a, u) → ∀ out, ∃ fuel r,
          decodeName data maxSize outLength fuel a out u = some (.ok r) from
      hall _ 0 rfl o .refl out
    intro n
    induction n using Nat.strong_induction_on with
    | _ n ih =>
      rintro u rfl
      have hlabel : ∀ a, ReflTransGen (Step data maxSize outLength) (o, 0) (a, u) →
          ∀ c, Step data maxSize outLength (a, u) c → u < c.2 → ∀ out, ∃ fuel r,
            decodeName data maxSize outLength fuel c.1 out c.2 = some (.ok r) := by
        intro a ha c hc hlt
        have hle : c.2 ≤ outLength := by
          cases hc with
          | label _ _ hroom _ => dsimp only; omega
          | pointer _ => exact absurd hlt (lt_irrefl _)
        exact ih (outLength - c.2) (by omega) c.2 rfl c.1 (ha.tail hc)
      let places := { a : Fin maxSize //
        ReflTransGen (Step data maxSize outLength) (o, 0) ((a : ℕ), u) }
      let before : places → places → Prop := fun b a =>
        TransGen (Follows data maxSize) (a.1 : ℕ) (b.1 : ℕ)
      have : IsTrans places before := ⟨fun a b c hab hbc => hbc.trans hab⟩
      have : Std.Irrefl before := ⟨fun a ha => h.noCircle _ a.2 ha⟩
      have hwf : WellFounded before := Finite.wellFounded_of_trans_of_irrefl before
      have hplaces : ∀ a : places, ∀ out, ∃ fuel r,
          decodeName data maxSize outLength fuel (a.1 : ℕ) out u = some (.ok r) := by
        intro a
        induction a using hwf.induction with
        | _ a iha =>
          refine exists_ends (h.whole _ a.2) (fun t ht => ?_) (hlabel _ a.2)
          have hreach := a.2.tail (Step.pointer ht)
          by_cases htlt : t < maxSize
          · exact iha ⟨⟨t, htlt⟩, hreach⟩ (.single ht)
          · exact fun out => ⟨1, _, decodeName_past htlt⟩
      intro a ha
      by_cases halt : a < maxSize
      · exact hplaces ⟨⟨a, halt⟩, ha⟩
      · exact fun out => ⟨1, _, decodeName_past halt⟩

lemma decodeName_succ {fuel o u : ℕ} {out : Buffer} {r : Except Fault (ℕ × Buffer)}
    (h : decodeName data maxSize outLength fuel o out u = some r) :
    decodeName data maxSize outLength (fuel + 1) o out u = some r := by
  induction fuel generalizing o u out r with
  | zero => cases h
  | succ fuel ih =>
    by_cases ho : o < maxSize
    swap
    · rw [decodeName_past ho] at h ⊢
      exact h
    by_cases h0 : (data o).toNat = 0
    · rw [decodeName_end ho h0] at h ⊢
      exact h
    by_cases h3 : (data o).toNat >>> 6 = 3
    · by_cases h1 : o + 1 < maxSize
      swap
      · rw [decodeName_cut ho h3 h1] at h ⊢
        exact h
      by_cases hj : pointerOffset (data o) (data (o + 1)) < sizeofPacket
      · rw [decodeName_header h1 h3 hj] at h ⊢
        exact h
      · rw [decodeName_pointer h1 h3 (by omega)] at h ⊢
        cases hrec : decodeName data maxSize outLength fuel
            (pointerOffset (data o) (data (o + 1)) - sizeofPacket) out u with
        | none =>
          rw [hrec] at h
          cases h
        | some r' =>
          rw [hrec] at h
          rw [ih hrec]
          exact h
    · by_cases hroom : (data o).toNat + u + 1 > outLength ∨ (data o).toNat + (o + 1) > maxSize
      · rw [decodeName_full ho h0 h3 hroom] at h ⊢
        exact h
      · rw [decodeName_label ho h0 h3 (by omega) (by omega)] at h ⊢
        exact ih h

lemma decodeName_le {fuel fuel' o u : ℕ} {out : Buffer} {r : Except Fault (ℕ × Buffer)}
    (hle : fuel ≤ fuel') (h : decodeName data maxSize outLength fuel o out u = some r) :
    decodeName data maxSize outLength fuel' o out u = some r := by
  induction fuel', hle using Nat.le_induction with
  | base => exact h
  | succ fuel' _ ih => exact decodeName_succ ih

/-! ### Where the questions end -/

lemma IsPointer.ne_zero {o : ℕ} (h : IsPointer data o) : (data o).toNat ≠ 0 := by
  intro h0
  simp [IsPointer, h0] at h

lemma Labels.unique {o a b : ℕ} (ha : Labels data o a) (hb : Labels data o b)
    (hna : ¬IsLabel data a) (hnb : ¬IsLabel data b) : a = b := by
  induction ha with
  | refl =>
    cases hb with
    | refl => rfl
    | head hl _ => exact absurd hl hna
  | head hl _ ih =>
    cases hb with
    | refl => exact absurd hl hnb
    | head _ hb => exact ih hb hna

lemma nameEnd_unique {o e e' : ℕ} (h : PlainEnd data o e ∨ PointerEnd data o e)
    (h' : PointerEnd data o e') : PointerEnd data o e ∧ e = e' := by
  obtain ⟨b, hb, hp, rfl⟩ := h'
  have hnb : ¬IsLabel data b := fun hl => hl.2 hp
  rcases h with ⟨a, ha, h0, rfl⟩ | ⟨a, ha, hpa, rfl⟩
  · obtain rfl := ha.unique hb (fun hl => hl.1 h0) hnb
    exact absurd h0 hp.ne_zero
  · obtain rfl := ha.unique hb (fun hl => hl.2 hpa) hnb
    exact ⟨⟨a, ha, hpa, rfl⟩, rfl⟩

lemma Labels.le {o o' : ℕ} (h : Labels data o o') : o ≤ o' := by
  induction h with
  | refl => exact le_rfl
  | head _ _ ih => omega

lemma Labels.of_drop {b o o' : ℕ} (h : Labels (fun i => data (b + i)) o o') :
    Labels data (b + o) (b + o') := by
  induction h with
  | refl => exact .refl
  | @head o o' hl _ ih =>
    refine .head hl ?_
    rwa [show b + o + 1 + (data (b + o)).toNat = b + (o + 1 + (data (b + o)).toNat) by omega]

lemma lt_of_nameEnd {o e : ℕ} (h : PlainEnd data o e ∨ PointerEnd data o e) : o < e := by
  rcases h with ⟨o', ho', -, rfl⟩ | ⟨o', ho', -, rfl⟩
  · have := ho'.le
    omega
  · have := ho'.le
    omega

lemma QuestionsEnd.le {n o o' : ℕ} (h : QuestionsEnd data n o o') : o ≤ o' := by
  induction h with
  | zero => exact le_rfl
  | succ hname _ ih =>
    have := lt_of_nameEnd hname
    omega

lemma skipFrom_bounds (i : ℕ) (h : skipFrom data maxSize i ≠ 0) :
    i < skipFrom data maxSize i ∧ skipFrom data maxSize i ≤ maxSize := by
  induction hn : maxSize - i using Nat.strong_induction_on generalizing i with
  | _ n ih =>
    by_cases hi : i < maxSize
    swap
    · exact absurd (skipFrom_past hi) h
    by_cases h0 : (data i).toNat = 0
    · rw [skipFrom_end hi h0]
      omega
    by_cases h3 : (data i).toNat >>> 6 = 3
    · rw [skipFrom_pointer hi h3] at h ⊢
      have := ih _ (by omega) _ h rfl
      omega
    · rw [skipFrom_label hi h0 h3] at h ⊢
      have := ih _ (by omega) _ h rfl
      omega

lemma skipFrom_of_labels {o o' : ℕ} (h : Labels data o o') (h0 : (data o').toNat = 0)
    (hlt : o' < maxSize) : skipFrom data maxSize o = o' + 1 := by
  induction h with
  | refl =>
    exact skipFrom_end hlt h0
  | @head o o' hl hrest ih =>
    have hlt' := hrest.le
    rw [skipFrom_label (by omega) hl.1 hl.2]
    exact ih h0 hlt

/-- What was skipped is a name without a pointer, or more than a name with one. -/
lemma skipFrom_spec (i : ℕ) (h : skipFrom data maxSize i ≠ 0) :
    PlainEnd data i (skipFrom data maxSize i) ∨
      ∃ e, PointerEnd data i e ∧ e < skipFrom data maxSize i := by
  induction hn : maxSize - i using Nat.strong_induction_on generalizing i with
  | _ n ih =>
    by_cases hi : i < maxSize
    swap
    · exact absurd (skipFrom_past hi) h
    by_cases h0 : (data i).toNat = 0
    · rw [skipFrom_end hi h0]
      exact .inl ⟨i, .refl, h0, rfl⟩
    by_cases h3 : IsPointer data i
    · rw [skipFrom_pointer hi h3] at h ⊢
      have hbounds := skipFrom_bounds _ h
      exact .inr ⟨i + 2, ⟨i, .refl, h3, rfl⟩, by omega⟩
    · rw [skipFrom_label hi h0 h3] at h ⊢
      rcases ih _ (by omega) _ h rfl with ⟨o', ho', hz, heq⟩ | ⟨e, ⟨o', ho', hp, he⟩, hlt⟩
      · exact .inl ⟨o', .head ⟨h0, h3⟩ ho', hz, heq⟩
      · exact .inr ⟨e, ⟨o', .head ⟨h0, h3⟩ ho', hp, he⟩, hlt⟩

/-! ### Replies -/

/-- A reply is handled as it should be: the answer is found behind all questions wherever they
are all in the packet, and nowhere else; handling ends, and without an access outside. -/
structure Handled (p : Packet) : Prop where
  located : Accepted p → ∀ o, skipQuestions p p.qdcount 0 = some o ↔
    QuestionsEnd p.data p.qdcount 0 o ∧ o + sizeofPacket ≤ p.length
  ends : ∀ known buffer, ∃ fuel reply, handleReply known buffer p fuel = some (.ok reply)
  inside : ∀ known buffer fuel fault, handleReply known buffer p fuel ≠ some (.error fault)

/-- A first question whose name has no pointer, no second name in the packet, and an answer whose
name can be decoded. -/
structure Benign (p : Packet) : Prop where
  question : p.qdcount ≠ 0 → ∀ e, PointerEnd p.data 0 e →
    p.length < e + sizeofQuestion + sizeofPacket
  further : 2 ≤ p.qdcount → ∀ o e, QuestionsEnd p.data 1 0 o → o + sizeofPacket ≤ p.length →
    PlainEnd p.data o e ∨ PointerEnd p.data o e → p.length < e + sizeofPacket
  answer : ∀ o, QuestionsEnd p.data p.qdcount 0 o → o + sizeofPacket ≤ p.length →
    Decodable p.data (p.length - sizeofPacket) 256 o

section

variable {p : Packet}

lemma skipQuestions_one (o : ℕ) : skipQuestions p 1 0 = some o ↔
    skipFrom p.data (p.length - sizeofPacket) 0 ≠ 0 ∧
      o = skipFrom p.data (p.length - sizeofPacket) 0 + sizeofQuestion ∧
      o + sizeofPacket ≤ p.length := by
  have hdata : (fun i => p.data (0 + i)) = p.data := by
    funext i
    rw [Nat.zero_add]
  simp only [skipQuestions, skipName, hdata, Nat.sub_zero]
  split_ifs with h0 hlen
  · simp [h0]
  · simp only [false_iff, not_and]
    rintro - rfl
    omega
  · simp only [Option.some.injEq]
    constructor
    · rintro rfl
      exact ⟨h0, rfl, by omega⟩
    · exact fun h => h.2.1.symm

lemma questionsEnd_one (o : ℕ) : QuestionsEnd p.data 1 0 o ↔
    ∃ e, (PlainEnd p.data 0 e ∨ PointerEnd p.data 0 e) ∧ o = e + sizeofQuestion := by
  constructor
  · intro h
    cases h with
    | succ hname hrest =>
      cases hrest
      exact ⟨_, hname, rfl⟩
  · rintro ⟨e, hname, rfl⟩
    exact .succ hname .zero

lemma located_one : (∀ o, skipQuestions p 1 0 = some o ↔
    QuestionsEnd p.data 1 0 o ∧ o + sizeofPacket ≤ p.length) ↔
      ∀ e, PointerEnd p.data 0 e → p.length < e + sizeofQuestion + sizeofPacket := by
  constructor
  · intro h e he
    by_contra hlen
    have hskip := (h (e + sizeofQuestion)).mpr
      ⟨(questionsEnd_one _).mpr ⟨e, .inr he, rfl⟩, by omega⟩
    obtain ⟨h0, heq, -⟩ := (skipQuestions_one _).mp hskip
    have heq' : skipFrom p.data (p.length - sizeofPacket) 0 = e := by omega
    rcases skipFrom_spec 0 h0 with hplain | ⟨e', he', hlt⟩
    · rw [heq'] at hplain
      obtain ⟨⟨a, ha, hp, rfl⟩, -⟩ := nameEnd_unique (.inl hplain) he
      obtain ⟨b, hb, hz, hab⟩ := hplain
      have := ha.unique hb (fun hl => hl.2 hp) (fun hl => hl.1 hz)
      omega
    · have := (nameEnd_unique (.inr he') he).2
      omega
  · intro h o
    rw [skipQuestions_one, questionsEnd_one]
    constructor
    · rintro ⟨h0, rfl, hlen⟩
      refine ⟨⟨_, ?_, rfl⟩, hlen⟩
      rcases skipFrom_spec 0 h0 with hplain | ⟨e, he, hlt⟩
      · exact .inl hplain
      · have := h e he
        omega
    · rintro ⟨⟨e, hname, rfl⟩, hlen⟩
      rcases hname with ⟨o', ho', hz, rfl⟩ | hp
      · have hsize : sizeofQuestion = 4 := rfl
        have hskip : skipFrom p.data (p.length - sizeofPacket) 0 = o' + 1 :=
          skipFrom_of_labels ho' hz (by omega)
        rw [hskip]
        exact ⟨Nat.succ_ne_zero _, rfl, hlen⟩
      · have := h e hp
        omega

lemma skipQuestions_succ (n : ℕ) :
    skipQuestions p (n + 1) 0 = (skipQuestions p 1 0).bind (skipQuestions p n) := by
  simp only [skipQuestions]
  split_ifs with h0 hlen
  · rfl
  · rfl
  · rfl

lemma nameEnd_of_skipQuestions {n o o' : ℕ} (ho : o + sizeofPacket ≤ p.length)
    (h : skipQuestions p (n + 1) o = some o') :
    ∃ e, (PlainEnd p.data o e ∨ PointerEnd p.data o e) ∧ e + sizeofPacket ≤ p.length := by
  have h0 : skipName (fun i => p.data (o + i)) (p.length - sizeofPacket - o) ≠ 0 := by
    intro h0
    simp only [skipQuestions, if_pos h0] at h
    cases h
  rw [skipName] at h0
  have hbounds := skipFrom_bounds 0 h0
  rcases skipFrom_spec 0 h0 with ⟨a, ha, hz, heq⟩ | ⟨e, ⟨a, ha, hp, rfl⟩, hlt⟩
  · exact ⟨o + a + 1, .inl ⟨o + a, ha.of_drop, hz, rfl⟩, by omega⟩
  · exact ⟨o + a + 2, .inr ⟨o + a, ha.of_drop, hp, rfl⟩, by omega⟩

lemma located_of_benign (ha : Accepted p) (hb : Benign p) (o : ℕ) :
    skipQuestions p p.qdcount 0 = some o ↔
      QuestionsEnd p.data p.qdcount 0 o ∧ o + sizeofPacket ≤ p.length := by
  obtain ⟨hone, hmany, -⟩ := hb
  revert hone hmany
  cases p.qdcount with
  | zero =>
    intro _ _
    rw [skipQuestions, Option.some.injEq]
    constructor
    · rintro rfl
      exact ⟨.zero, by have := ha.1; omega⟩
    · rintro ⟨hend, -⟩
      cases hend
      rfl
  | succ n =>
    intro hone hmany
    have hfirst := located_one.mpr (hone (Nat.succ_ne_zero n))
    cases n with
    | zero => exact hfirst o
    | succ n =>
      -- neither the code nor the packet has a second name
      constructor
      · intro h
        rw [skipQuestions_succ, Option.bind_eq_some_iff] at h
        obtain ⟨o₁, h₁, h₂⟩ := h
        obtain ⟨hend, hlen⟩ := (hfirst o₁).mp h₁
        obtain ⟨e, hname, he⟩ := nameEnd_of_skipQuestions hlen h₂
        have := hmany (by omega) o₁ e hend hlen hname
        omega
      · rintro ⟨h, hlen⟩
        cases h with
        | @succ _ _ e _ hname hrest =>
          cases hrest with
          | @succ _ _ e' _ hname' hrest' =>
            have hend := (questionsEnd_one _).mpr ⟨e, hname, rfl⟩
            have hlt := lt_of_nameEnd hname'
            have hle := hrest'.le
            have := hmany (by omega) _ e' hend (by omega) hname'
            omega

lemma located_iff (hq : p.qdcount ≤ 1)
    (h : ∀ o, skipQuestions p p.qdcount 0 = some o ↔
      QuestionsEnd p.data p.qdcount 0 o ∧ o + sizeofPacket ≤ p.length) (h0 : p.qdcount ≠ 0) :
    ∀ e, PointerEnd p.data 0 e → p.length < e + sizeofQuestion + sizeofPacket := by
  rw [show p.qdcount = 1 by omega] at h
  exact located_one.mp h

lemma handled_of_benign (h : Accepted p → Benign p) : Handled p := by
  by_cases ha : Accepted p
  swap
  · have hnone : ∀ known buffer fuel, handleReply known buffer p fuel = some (.ok none) :=
      fun known buffer fuel => if_pos ha
    refine ⟨fun ha' => absurd ha' ha, fun known buffer => ⟨0, none, hnone _ _ _⟩, ?_⟩
    intro known buffer fuel fault heq
    rw [hnone] at heq
    cases heq
  have hb := h ha
  have hlocated := located_of_benign ha hb
  refine ⟨fun _ => hlocated, fun known buffer => ?_, fun known buffer fuel fault heq => ?_⟩
  · simp only [handleReply, not_not.mpr ha, if_false]
    split_ifs with hknown
    · exact ⟨0, none, rfl⟩
    · cases hskip : skipQuestions p p.qdcount 0 with
      | none => exact ⟨0, none, rfl⟩
      | some o =>
        obtain ⟨hend, hlen⟩ := (hlocated o).mp hskip
        obtain ⟨fuel, r, hdec⟩ := (decodable_iff o buffer).mpr (hb.answer o hend hlen)
        refine ⟨fuel, readRecord p r.2 r.1, ?_⟩
        dsimp only
        rw [hdec]
        rfl
  · simp only [handleReply, not_not.mpr ha, if_false] at heq
    split_ifs at heq with hknown
    · cases heq
    · cases hskip : skipQuestions p p.qdcount 0 with
      | none =>
        rw [hskip] at heq
        cases heq
      | some o =>
        rw [hskip] at heq
        obtain ⟨hend, hlen⟩ := (hlocated o).mp hskip
        obtain ⟨fuel', r, hdec⟩ := (decodable_iff o buffer).mpr (hb.answer o hend hlen)
        obtain ⟨r', hdec', hr⟩ := Option.map_eq_some_iff.mp heq
        cases r' with
        | ok r' => cases hr
        | error fault =>
          have h1 := decodeName_le (Nat.le_max_left fuel fuel') hdec'
          have h2 := decodeName_le (Nat.le_max_right fuel fuel') hdec
          rw [h1] at h2
          cases h2

lemma benign_of_handled (hq : p.qdcount ≤ 1) (h : Handled p) (ha : Accepted p) : Benign p := by
  refine ⟨located_iff hq (h.located ha), fun h2 => absurd h2 (by omega), fun o hend hlen => ?_⟩
  have hskip := (h.located ha o).mpr ⟨hend, hlen⟩
  obtain ⟨fuel, reply, hreply⟩ := h.ends (fun _ => true) fun _ => 0
  simp only [handleReply, not_not.mpr ha, if_false, Bool.true_eq_false, hskip,
    Option.map_eq_some_iff] at hreply
  obtain ⟨r, hdec, hr⟩ := hreply
  cases r with
  | error fault => cases hr
  | ok r => exact (decodable_iff o fun _ => 0).mp ⟨fuel, r, hdec⟩

/-- **Replies** that are benign or not accepted at all are handled as they should be, and no
others are that have at most one question. -/
theorem handled_iff (p : Packet) :
    ((Accepted p → Benign p) → Handled p) ∧
      (p.qdcount ≤ 1 → Handled p → Accepted p → Benign p) :=
  ⟨handled_of_benign, benign_of_handled⟩

end

/-- A reply with a question; the name of its answer is a pointer to the one of the question. -/
def answerPacket : Packet where
  length := 35
  bytes := fun i => [0, 0, 0x80, 0, 0, 1, 0, 1, 0, 0, 0, 0, 1, 97, 0, 0, 1, 0, 1, 0xc0, 12, 0, 1, 0,
    1, 0, 0, 0, 60, 0, 4, 10, 0, 0, 1].getD i 0
  length_lt := by decide

lemma answerPacket_labels {o : ℕ} (h : Labels answerPacket.data 0 o) : o = 0 ∨ o = 2 := by
  cases h with
  | refl => exact .inl rfl
  | head _ h =>
    refine .inr ?_
    cases h with
    | refl => decide
    | head hlabel => exact absurd (by decide) hlabel.1

lemma answerPacket_not_pointerEnd (e : ℕ) : ¬PointerEnd answerPacket.data 0 e := by
  rintro ⟨o, hlabels, hpointer, -⟩
  rcases answerPacket_labels hlabels with rfl | rfl
  · exact absurd hpointer (by unfold IsPointer; decide)
  · exact absurd hpointer (by unfold IsPointer; decide)

theorem answerPacket_handled : Handled answerPacket := by
  refine (handled_iff answerPacket).1 fun _ =>
    ⟨fun _ e h => absurd h (answerPacket_not_pointerEnd e), fun h => absurd h (by decide),
      fun o hend _ => ?_⟩
  have hcount : answerPacket.qdcount = 1 := by decide
  rw [hcount] at hend
  cases hend with
  | succ hname hrest =>
    obtain ⟨o', hlabels, hzero, rfl⟩ := hname.resolve_right (answerPacket_not_pointerEnd _)
    cases hrest
    rcases answerPacket_labels hlabels with rfl | rfl
    · exact absurd hzero (by decide)
    -- behind the question
    exact (decodable_iff _ fun _ => 0).mp ⟨3, _, rfl⟩

/-- A reply without a question; the name of its answer is a pointer to itself. -/
def loopPacket : Packet where
  length := 14
  bytes := fun i => [0, 0, 0x80, 0, 0, 0, 0, 1, 0, 0, 0, 0, 0xc0, 12].getD i 0
  length_lt := by decide

/-- Decoding its name never ends. -/
theorem loopPacket_not_handled : Accepted loopPacket ∧ ¬Handled loopPacket := by
  have ha : Accepted loopPacket := by decide
  refine ⟨ha, fun h => ?_⟩
  obtain ⟨fuel, reply, hreply⟩ := h.ends (fun _ => true) fun _ => 0
  have hskip : skipQuestions loopPacket loopPacket.qdcount 0 = some 0 := rfl
  simp only [handleReply, not_not.mpr ha, if_false, Bool.true_eq_false, hskip,
    Option.map_eq_some_iff] at hreply
  obtain ⟨r, hdec, hr⟩ := hreply
  cases r with
  | error fault => cases hr
  | ok r =>
    have hfollows : Follows loopPacket.data (loopPacket.length - sizeofPacket) 0 0 := by
      have hp : (loopPacket.data 0).toNat >>> 6 = 3 := by decide
      exact ⟨by decide, hp, by decide, by decide⟩
    exact not_ends_of_circle (.single hfollows) fuel ⟨_, r, hdec⟩

end KernelModel.Dns
