import Mathlib.Tactic

/-!
The Gregorian calendar, and the two conversions between dates and nanoseconds since 1970.

The kernel turns a date into nanoseconds, the system library turns nanoseconds into a date. Both
count years from March on, in eras of 400 years.
-/

namespace KernelModel.Calendar

/-! ### The calendar -/

def IsLeap (year : ℕ) : Prop := 4 ∣ year ∧ (¬100 ∣ year ∨ 400 ∣ year)

instance (year : ℕ) : Decidable (IsLeap year) := inferInstanceAs (Decidable (_ ∧ _))

def yearLength (year : ℕ) : ℕ := if IsLeap year then 366 else 365

def monthLength (year : ℕ) : ℕ → ℕ
  | 2 => if IsLeap year then 29 else 28
  | 4 | 6 | 9 | 11 => 30
  | _ => 31

/-- A date and a time of day. -/
structure DateTime where
  year : ℕ
  month : ℕ
  day : ℕ
  hour : ℕ
  minute : ℕ
  second : ℕ
  deriving DecidableEq

structure DateTime.Valid (t : DateTime) : Prop where
  year : 1970 ≤ t.year
  month_pos : 1 ≤ t.month
  month_le : t.month ≤ 12
  day_pos : 1 ≤ t.day
  day_le : t.day ≤ monthLength t.year t.month
  hour : t.hour < 24
  minute : t.minute < 60
  second : t.second < 60

/-- The days from the first of January 1970 to the first of January. -/
def yearDays (year : ℕ) : ℕ := ∑ y ∈ Finset.Ico 1970 year, yearLength y

/-- The days from the first of January to the first of a month. -/
def monthDays (year month : ℕ) : ℕ := ∑ m ∈ Finset.Ico 1 month, monthLength year m

namespace DateTime

/-- The days since the first of January 1970. -/
def days (t : DateTime) : ℕ := yearDays t.year + monthDays t.year t.month + (t.day - 1)

def seconds (t : DateTime) : ℕ := ((t.days * 24 + t.hour) * 60 + t.minute) * 60 + t.second

/-- The nanoseconds since 1970. -/
def nanoseconds (t : DateTime) : ℕ := t.seconds * 1000000000

end DateTime

/-! ### The conversions -/

/-- A value as it is stored in a signed word of `n` bits. -/
def toSigned (n : ℕ) (x : ℤ) : ℤ := x.bmod (2 ^ n)

/-- A value as it is stored in an unsigned word of `n` bits. -/
def toUnsigned (n : ℕ) (x : ℤ) : ℤ := x % 2 ^ n

/-- `time_to_nanoseconds` -/
def timeToNanoseconds (year month day hour minute second : ℤ) : ℤ :=
  let year := toSigned 16 (year - if month ≤ 2 then 1 else 0)
  let era := toUnsigned 32 ((if year ≥ 0 then year else year - 399).tdiv 400)
  let yearOfEra := toUnsigned 32 (year - era * 400)
  let dayOfYear := toUnsigned 32
    ((153 * (if month > 2 then month - 3 else month + 9) + 2).tdiv 5 + day - 1)
  let dayOfEra := toUnsigned 32 (yearOfEra * 365 + yearOfEra / 4 - yearOfEra / 100 + dayOfYear)
  let days := toUnsigned 32 (era * 146097 + dayOfEra - 719468)
  toSigned 64 ((((days * 24 + hour) * 60 + minute) * 60 + second) * 1000000000)

/-- `sys_time_t` -/
structure SysTime where
  years : ℤ
  months : ℤ
  days : ℤ
  hours : ℤ
  minutes : ℤ
  seconds : ℤ
  miliseconds : ℤ
  microseconds : ℤ
  nanoseconds : ℤ
  deriving DecidableEq

/-- `sys_time_from_nanoseconds` -/
def sysTimeFromNanoseconds (time : ℤ) : SysTime :=
  let nanoseconds := toUnsigned 16 (time.tmod 1000)
  let time := time.tdiv 1000
  let microseconds := toUnsigned 16 (time.tmod 1000)
  let time := time.tdiv 1000
  let miliseconds := toUnsigned 16 (time.tmod 1000)
  let time := time.tdiv 1000
  let seconds := toUnsigned 8 (time.tmod 60)
  let time := time.tdiv 60
  let minutes := toUnsigned 8 (time.tmod 60)
  let time := time.tdiv 60
  let hours := toUnsigned 8 (time.tmod 24)
  let time := time.tdiv 24 + 719468
  let era := toUnsigned 32 ((if time ≥ 0 then time else time - 146096).tdiv 146097)
  let dayOfEra := toUnsigned 32 (time - toUnsigned 32 (era * 146097))
  let yearOfEra := toUnsigned 32
    (dayOfEra - dayOfEra / 1460 + dayOfEra / 36524 - dayOfEra / 146096) / 365
  let dayOfYear := toUnsigned 32
    (dayOfEra - (365 * yearOfEra + yearOfEra / 4 - yearOfEra / 100))
  let month := toUnsigned 32 (5 * dayOfYear + 2) / 153
  let days := toUnsigned 8 (dayOfYear - (153 * month + 2) / 5 + 1)
  let months := toUnsigned 8 (if month < 10 then month + 3 else month - 9)
  { years := toSigned 16 (yearOfEra + era * 400 + if months ≤ 2 then 1 else 0)
    months := months
    days := days
    hours := hours
    minutes := minutes
    seconds := seconds
    miliseconds := miliseconds
    microseconds := microseconds
    nanoseconds := nanoseconds }

/-! ### Counting from March -/

section

variable {t : DateTime}

/-- The year that begins in March. -/
def marchYear (t : DateTime) : ℕ := if t.month ≤ 2 then t.year - 1 else t.year

/-- The month, counted from March. -/
def marchMonth (t : DateTime) : ℕ := if t.month > 2 then t.month - 3 else t.month + 9

/-- The day in the year that begins in March. -/
def marchDay (t : DateTime) : ℕ := (153 * marchMonth t + 2) / 5 + t.day - 1

lemma yearDays_succ {year : ℕ} (h : 1970 ≤ year) :
    yearDays (year + 1) = yearDays year + yearLength year :=
  Finset.sum_Ico_succ_top h _

lemma yearDays_eq {year : ℕ} (h : 1970 ≤ year) :
    yearDays year + 719528 = 365 * year + (year + 3) / 4 - (year + 99) / 100 +
      (year + 399) / 400 := by
  induction year, h using Nat.le_induction with
  | base => rfl
  | succ year h ih =>
    rw [yearDays_succ h, yearLength]
    split_ifs with hleap
    · simp only [IsLeap] at hleap
      omega
    · simp only [IsLeap] at hleap
      omega

lemma monthDays_succ (year : ℕ) {month : ℕ} (h : 1 ≤ month) :
    monthDays year (month + 1) = monthDays year month + monthLength year month :=
  Finset.sum_Ico_succ_top h _

lemma monthDays_eq (year : ℕ) {month : ℕ} (hpos : 1 ≤ month) (hle : month ≤ 12) :
    monthDays year month =
      if month ≤ 2 then 31 * (month - 1)
      else (153 * (month - 3) + 2) / 5 + if IsLeap year then 60 else 59 := by
  induction month, hpos using Nat.le_induction with
  | base => rfl
  | succ month hpos ih =>
    rw [monthDays_succ year hpos, ih (by omega)]
    have hlt : month < 12 := hle
    by_cases hleap : IsLeap year
    · simp only [if_pos hleap]
      interval_cases month <;> simp only [monthLength, if_pos hleap] <;> rfl
    · simp only [if_neg hleap]
      interval_cases month <;> simp only [monthLength, if_neg hleap] <;> rfl

lemma days_eq (ht : t.Valid) :
    t.days + 719468 =
      365 * marchYear t + marchYear t / 4 - marchYear t / 100 + marchYear t / 400 + marchDay t := by
  have hyear := yearDays_eq ht.year
  have hmonth := monthDays_eq t.year ht.month_pos ht.month_le
  have h1970 := ht.year
  have hday := ht.day_pos
  have hpos := ht.month_pos
  have hle := ht.month_le
  rw [DateTime.days, marchDay, marchMonth, marchYear, hmonth]
  by_cases h2 : t.month ≤ 2
  · have h3 : ¬t.month > 2 := by omega
    simp only [if_pos h2, if_neg h3]
    omega
  · have h3 : t.month > 2 := by omega
    simp only [if_neg h2, if_pos h3]
    by_cases hleap : IsLeap t.year
    · rw [if_pos hleap]
      simp only [IsLeap] at hleap
      omega
    · rw [if_neg hleap]
      simp only [IsLeap] at hleap
      omega

lemma marchDay_lt (ht : t.Valid) :
    marchDay t < 365 ∨ marchDay t = 365 ∧ IsLeap (marchYear t + 1) := by
  have hday := ht.day_le
  have h1970 := ht.year
  rw [marchDay, marchMonth, marchYear]
  by_cases h2 : t.month = 2
  · rw [h2, monthLength] at hday
    have hyear : (if t.month ≤ 2 then t.year - 1 else t.year) + 1 = t.year := by
      rw [if_pos (by omega)]
      omega
    have hmonth : (if 2 > 2 then 2 - 3 else 2 + 9) = 11 := rfl
    rw [hyear, h2, hmonth]
    split_ifs at hday with hleap
    · simp only [hleap, and_true]
      omega
    · omega
  · have hle := ht.month_le
    have hpos := ht.month_pos
    refine .inl ?_
    have h31 : monthLength t.year t.month ≤ 31 := by
      interval_cases t.month <;> simp [monthLength] at h2 ⊢
    interval_cases t.month <;> simp [monthLength] at h2 h31 hday ⊢ <;> omega

/-! ### From a date to nanoseconds -/

lemma toUnsigned_of_lt {n : ℕ} {x : ℤ} (h0 : 0 ≤ x) (h : x < 2 ^ n) : toUnsigned n x = x :=
  Int.emod_eq_of_lt h0 h

lemma toSigned_of_lt {n : ℕ} {x : ℤ} (h0 : 0 ≤ x) (h : 2 * x < 2 ^ n) : toSigned n x = x := by
  rw [toSigned, Int.bmod_eq_of_le] <;> push_cast <;> omega

lemma kernel_days (ht : t.Valid) (hyear : t.year < 2 ^ 15) :
    let year := toSigned 16 ((t.year : ℤ) - if (t.month : ℤ) ≤ 2 then 1 else 0)
    let era := toUnsigned 32 ((if year ≥ 0 then year else year - 399).tdiv 400)
    let yearOfEra := toUnsigned 32 (year - era * 400)
    let dayOfYear := toUnsigned 32
      ((153 * (if (t.month : ℤ) > 2 then (t.month : ℤ) - 3 else t.month + 9) + 2).tdiv 5 +
        t.day - 1)
    let dayOfEra := toUnsigned 32 (yearOfEra * 365 + yearOfEra / 4 - yearOfEra / 100 + dayOfYear)
    toUnsigned 32 (era * 146097 + dayOfEra - 719468) = t.days := by
  have hdays := days_eq ht
  have hday := marchDay_lt ht
  have h1970 := ht.year
  have hmarch : marchYear t < 2 ^ 15 := by
    rw [marchYear]
    split_ifs <;> omega
  have hyear' : toSigned 16 ((t.year : ℤ) - if (t.month : ℤ) ≤ 2 then 1 else 0) = marchYear t := by
    have heq : (t.year : ℤ) - (if (t.month : ℤ) ≤ 2 then 1 else 0) = marchYear t := by
      rw [marchYear]
      by_cases h2 : t.month ≤ 2
      · rw [if_pos h2, if_pos (by exact_mod_cast h2)]
        omega
      · rw [if_neg h2, if_neg (by exact_mod_cast h2)]
        omega
    rw [heq, toSigned_of_lt (by omega) (by omega)]
  have hera : toUnsigned 32 ((if (marchYear t : ℤ) ≥ 0 then (marchYear t : ℤ)
      else marchYear t - 399).tdiv 400) = (marchYear t / 400 : ℕ) := by
    rw [if_pos (by omega), Int.tdiv_eq_ediv_of_nonneg (by omega),
      toUnsigned_of_lt (by omega) (by omega)]
    omega
  have hyearOfEra : toUnsigned 32 ((marchYear t : ℤ) - (marchYear t / 400 : ℕ) * 400) =
      (marchYear t % 400 : ℕ) := by
    rw [toUnsigned_of_lt (by omega) (by omega)]
    omega
  have hdayOfYear : toUnsigned 32
      ((153 * (if (t.month : ℤ) > 2 then (t.month : ℤ) - 3 else t.month + 9) + 2).tdiv 5 +
        t.day - 1) = marchDay t := by
    have hmonth : (if (t.month : ℤ) > 2 then (t.month : ℤ) - 3 else t.month + 9) =
        marchMonth t := by
      rw [marchMonth]
      by_cases h2 : t.month > 2
      · rw [if_pos h2, if_pos (by exact_mod_cast h2)]
        omega
      · rw [if_neg h2, if_neg (by exact_mod_cast h2)]
        push_cast
        rfl
    have hpos := ht.day_pos
    have hdef : marchDay t = (153 * marchMonth t + 2) / 5 + t.day - 1 := rfl
    rw [hmonth, Int.tdiv_eq_ediv_of_nonneg (by omega), toUnsigned_of_lt (by omega) (by omega)]
    omega
  simp only [hyear', hera, hyearOfEra, hdayOfYear]
  have hdayOfEra : toUnsigned 32 (((marchYear t % 400 : ℕ) : ℤ) * 365 +
      (marchYear t % 400 : ℕ) / 4 - (marchYear t % 400 : ℕ) / 100 + marchDay t) =
      (marchYear t % 400 : ℕ) * 365 + (marchYear t % 400 : ℕ) / 4 -
        (marchYear t % 400 : ℕ) / 100 + marchDay t :=
    toUnsigned_of_lt (by omega) (by omega)
  have hfour : marchYear t / 4 = marchYear t / 400 * 100 + marchYear t % 400 / 4 := by omega
  have hcentury : marchYear t / 100 = marchYear t / 400 * 4 + marchYear t % 400 / 100 := by omega
  rw [hdayOfEra, toUnsigned_of_lt (by omega) (by omega)]
  omega

lemma days_lt_of_nanoseconds (h : t.nanoseconds < 2 ^ 63) : t.days < 106752 := by
  rw [DateTime.nanoseconds, DateTime.seconds] at h
  omega

lemma year_lt_of_days (ht : t.Valid) (h : t.days < 106752) : t.year < 2263 := by
  have hyear := yearDays_eq ht.year
  rw [DateTime.days] at h
  omega

lemma timeToNanoseconds_eq (ht : t.Valid) (hfits : t.nanoseconds < 2 ^ 63) :
    timeToNanoseconds t.year t.month t.day t.hour t.minute t.second = t.nanoseconds := by
  have hyear := year_lt_of_days ht (days_lt_of_nanoseconds hfits)
  have hdays := kernel_days ht (by omega)
  simp only at hdays
  rw [timeToNanoseconds]
  simp only [hdays]
  have heq : ((((t.days : ℤ) * 24 + t.hour) * 60 + t.minute) * 60 + t.second) * 1000000000 =
      t.nanoseconds := by
    rw [DateTime.nanoseconds, DateTime.seconds]
    push_cast
    rfl
  rw [heq, toSigned_of_lt (by omega) (by omega)]

/-! ### From nanoseconds to a date -/

lemma yearOfEra_eq {year day doe : ℕ} (hyear : year < 400)
    (hday : day < 365 ∨ day = 365 ∧ year % 4 = 3 ∧ (year % 100 ≠ 99 ∨ year = 399))
    (hdoe : doe = 365 * year + year / 4 - year / 100 + day) :
    (doe - doe / 1460 + doe / 36524 - doe / 146096) / 365 = year := by
  -- the centuries, the four-year spans and the years that are over
  obtain ⟨c, q, r, hc, hq, hr, rfl⟩ :
      ∃ c q r, c < 4 ∧ q < 25 ∧ r < 4 ∧ year = 100 * c + 4 * q + r :=
    ⟨year / 100, year % 100 / 4, year % 4, by omega, by omega, by omega, by omega⟩
  have hdoe' : doe = 36524 * c + 1461 * q + 365 * r + day := by
    rw [hdoe]
    omega
  have hlast : day < 365 ∨ day = 365 ∧ r = 3 ∧ (q < 24 ∨ c = 3) := by omega
  clear hdoe hday
  obtain ⟨carry, hcarry⟩ : ∃ carry, carry = doe / 146096 := ⟨_, rfl⟩
  have hcentury : doe / 36524 = c + carry := by omega
  obtain ⟨extra, hextra, hextra_le⟩ : ∃ extra, doe / 1460 = 25 * c + q + extra ∧ extra ≤ 1 :=
    ⟨doe / 1460 - (25 * c + q), by omega, by omega⟩
  have hextra_iff : extra = 1 ↔ 1460 ≤ 24 * c + q + 365 * r + day := by omega
  rw [← hcarry, hcentury, hextra]
  clear hcarry hcentury hextra hyear
  have hle : extra ≤ day := by omega
  have hlt : day - extra < 365 := by omega
  clear hextra_iff hlast
  have hnumerator : doe - (25 * c + q + extra) + (c + carry) - carry =
      (100 * c + 4 * q + r) * 365 + (day - extra) := by omega
  rw [hnumerator, Nat.mul_comm, Nat.mul_add_div (by decide), Nat.div_eq_of_lt hlt, add_zero]

lemma month_eq (ht : t.Valid) : (5 * marchDay t + 2) / 153 = marchMonth t := by
  have hday := ht.day_le
  have hpos := ht.day_pos
  have hmonth := ht.month_pos
  have hle := ht.month_le
  have hdef : marchDay t = (153 * marchMonth t + 2) / 5 + t.day - 1 := rfl
  have hfebruary : monthLength t.year 2 ≤ 29 := by
    rw [monthLength]
    split_ifs <;> omega
  rw [hdef, marchMonth]
  interval_cases t.month <;> simp [monthLength] at hday hfebruary ⊢ <;> omega

lemma library_day {era year day doe : ℕ} {time : ℤ} (hera_lt : era < 100) (hyear : year < 400)
    (hday : day < 365 ∨ day = 365 ∧ year % 4 = 3 ∧ (year % 100 ≠ 99 ∨ year = 399))
    (hdoe : doe = 365 * year + year / 4 - year / 100 + day) (htime : time = 146097 * era + doe) :
    let era' := toUnsigned 32 ((if time ≥ 0 then time else time - 146096).tdiv 146097)
    let dayOfEra := toUnsigned 32 (time - toUnsigned 32 (era' * 146097))
    let yearOfEra := toUnsigned 32
      (dayOfEra - dayOfEra / 1460 + dayOfEra / 36524 - dayOfEra / 146096) / 365
    let dayOfYear := toUnsigned 32
      (dayOfEra - (365 * yearOfEra + yearOfEra / 4 - yearOfEra / 100))
    era' = era ∧ yearOfEra = year ∧ dayOfYear = day := by
  have hyearOfEra := yearOfEra_eq hyear hday hdoe
  have hdoe_lt : doe < 146097 := by omega
  have hera : toUnsigned 32 ((if time ≥ 0 then time else time - 146096).tdiv 146097) = era := by
    clear hyearOfEra hdoe
    rw [if_pos (by omega), Int.tdiv_eq_ediv_of_nonneg (by omega),
      toUnsigned_of_lt (by omega) (by omega)]
    omega
  have hproduct : toUnsigned 32 ((era : ℤ) * 146097) = era * 146097 := by
    clear hyearOfEra hdoe
    exact toUnsigned_of_lt (by omega) (by omega)
  have hdayOfEra : toUnsigned 32 (time - (era : ℤ) * 146097) = doe := by
    clear hyearOfEra hdoe
    rw [toUnsigned_of_lt (by omega) (by omega)]
    omega
  have hnumerator : toUnsigned 32
      ((doe : ℤ) - doe / 1460 + doe / 36524 - doe / 146096) / 365 = year := by
    have heq : (doe : ℤ) - doe / 1460 + doe / 36524 - doe / 146096 =
        (doe - doe / 1460 + doe / 36524 - doe / 146096 : ℕ) := by
      clear hyearOfEra hdoe
      omega
    rw [heq, toUnsigned_of_lt (by omega) (by omega)]
    exact_mod_cast hyearOfEra
  have hdayOfYear : toUnsigned 32
      ((doe : ℤ) - (365 * year + (year : ℤ) / 4 - (year : ℤ) / 100)) = day := by
    clear hyearOfEra hnumerator hdayOfEra hera
    rw [toUnsigned_of_lt (by omega) (by omega)]
    omega
  simp only [hera, hproduct, hdayOfEra, hnumerator, hdayOfYear, and_self]

lemma library_date (ht : t.Valid) (hyear : t.year < 2263) :
    let time : ℤ := t.days + 719468
    let era := toUnsigned 32 ((if time ≥ 0 then time else time - 146096).tdiv 146097)
    let dayOfEra := toUnsigned 32 (time - toUnsigned 32 (era * 146097))
    let yearOfEra := toUnsigned 32
      (dayOfEra - dayOfEra / 1460 + dayOfEra / 36524 - dayOfEra / 146096) / 365
    let dayOfYear := toUnsigned 32
      (dayOfEra - (365 * yearOfEra + yearOfEra / 4 - yearOfEra / 100))
    era = (marchYear t / 400 : ℕ) ∧ yearOfEra = (marchYear t % 400 : ℕ) ∧
      dayOfYear = marchDay t := by
  have hdays := days_eq ht
  have hday := marchDay_lt ht
  have h1970 := ht.year
  have hmarch : marchYear t < 2263 := by
    rw [marchYear]
    split_ifs <;> omega
  have hlast : marchDay t < 365 ∨ marchDay t = 365 ∧ marchYear t % 400 % 4 = 3 ∧
      (marchYear t % 400 % 100 ≠ 99 ∨ marchYear t % 400 = 399) := by
    refine hday.imp_right fun h => ⟨h.1, ?_⟩
    have hleap := h.2
    simp only [IsLeap] at hleap
    omega
  refine library_day (by omega) (by omega) hlast rfl ?_
  clear hlast hday
  generalize marchYear t = year at *
  have hfour : year / 4 = year / 400 * 100 + year % 400 / 4 := by omega
  have hcentury : year / 100 = year / 400 * 4 + year % 400 / 100 := by omega
  have hsplit : year = year / 400 * 400 + year % 400 := by omega
  rw [hfour, hcentury] at hdays
  generalize year / 400 = era at *
  generalize year % 400 = rest at *
  subst hsplit
  push_cast
  omega

lemma tdiv_and_tmod {x k : ℤ} {d r : ℕ} (hx : x = d * k + r) (h : (r : ℤ) < k) :
    x.tdiv k = d ∧ x.tmod k = r := by
  have hk : 0 < k := by omega
  have hx0 : 0 ≤ x := by
    rw [hx]
    positivity
  rw [Int.tdiv_eq_ediv_of_nonneg hx0, Int.tmod_eq_emod_of_nonneg hx0, hx, add_comm,
    Int.add_mul_ediv_right _ _ hk.ne', Int.add_mul_emod_self_right,
    Int.ediv_eq_zero_of_lt (by omega) h, Int.emod_eq_of_lt (by omega) h, zero_add]
  exact ⟨rfl, rfl⟩

/-- The month and the year that the library reads off the year and month from March. -/
lemma library_month (ht : t.Valid) (hyear : t.year < 2263) :
    let month : ℤ := marchMonth t
    let months := toUnsigned 8 (if month < 10 then month + 3 else month - 9)
    months = t.month ∧ toUnsigned 8 (marchDay t - (153 * month + 2) / 5 + 1) = t.day ∧
      toSigned 16 ((marchYear t % 400 : ℕ) + (marchYear t / 400 : ℕ) * 400 +
        if months ≤ 2 then 1 else 0) = t.year := by
  have hpos := ht.month_pos
  have hle := ht.month_le
  have h1970 := ht.year
  have hday := ht.day_pos
  have hday_le : t.day ≤ 31 := by
    have := ht.day_le
    rw [monthLength.eq_def] at this
    split_ifs at this <;> split at this <;> omega
  have hmonths : toUnsigned 8 (if (marchMonth t : ℤ) < 10 then (marchMonth t : ℤ) + 3
      else marchMonth t - 9) = t.month := by
    rw [marchMonth]
    by_cases h2 : t.month > 2
    · rw [if_pos h2, if_pos (by omega), toUnsigned_of_lt (by omega) (by omega)]
      omega
    · rw [if_neg h2, if_neg (by omega), toUnsigned_of_lt (by omega) (by omega)]
      omega
  have hdef : marchDay t = (153 * marchMonth t + 2) / 5 + t.day - 1 := rfl
  simp only [hmonths, true_and]
  refine ⟨?_, ?_⟩
  · rw [toUnsigned_of_lt (by omega) (by omega)]
    omega
  · rw [marchYear]
    by_cases h2 : t.month ≤ 2
    · rw [if_pos h2, if_pos (by omega), toSigned_of_lt (by omega) (by omega)]
      omega
    · rw [if_neg h2, if_neg (by omega), toSigned_of_lt (by omega) (by omega)]
      omega

/-- **Nanoseconds become the date** and the parts of the second. -/
lemma sysTimeFromNanoseconds_eq {sub : ℕ} (ht : t.Valid) (hsub : sub < 1000000000)
    (hfits : t.nanoseconds + sub < 2 ^ 63) :
    sysTimeFromNanoseconds (t.nanoseconds + sub) =
      { years := t.year
        months := t.month
        days := t.day
        hours := t.hour
        minutes := t.minute
        seconds := t.second
        miliseconds := (sub / 1000000 : ℕ)
        microseconds := (sub / 1000 % 1000 : ℕ)
        nanoseconds := (sub % 1000 : ℕ) } := by
  have hyear := year_lt_of_days ht (days_lt_of_nanoseconds (by omega))
  have hhour := ht.hour
  have hminute := ht.minute
  have hsecond := ht.second
  obtain ⟨hthousands, hnano⟩ : ((t.nanoseconds : ℤ) + sub).tdiv 1000 =
        ((t.seconds * 1000 + sub / 1000000) * 1000 + sub / 1000 % 1000 : ℕ) ∧
      ((t.nanoseconds : ℤ) + sub).tmod 1000 = (sub % 1000 : ℕ) := by
    refine tdiv_and_tmod ?_ (by omega)
    rw [DateTime.nanoseconds]
    push_cast
    omega
  obtain ⟨hmillions, hmicro⟩ := tdiv_and_tmod
    (x := ((t.seconds * 1000 + sub / 1000000) * 1000 + sub / 1000 % 1000 : ℕ)) (k := 1000)
    (d := t.seconds * 1000 + sub / 1000000) (r := sub / 1000 % 1000) (by push_cast; rfl) (by omega)
  obtain ⟨hseconds, hmilli⟩ := tdiv_and_tmod
    (x := (t.seconds * 1000 + sub / 1000000 : ℕ)) (k := 1000)
    (d := t.seconds) (r := sub / 1000000) (by push_cast; rfl) (by omega)
  obtain ⟨hminutes, hsecond'⟩ := tdiv_and_tmod (x := t.seconds) (k := 60)
    (d := (t.days * 24 + t.hour) * 60 + t.minute) (r := t.second)
    (by rw [DateTime.seconds]; push_cast; rfl) (by omega)
  obtain ⟨hhours, hminute'⟩ := tdiv_and_tmod
    (x := ((t.days * 24 + t.hour) * 60 + t.minute : ℕ)) (k := 60)
    (d := t.days * 24 + t.hour) (r := t.minute) (by push_cast; rfl) (by omega)
  obtain ⟨hdays, hhour'⟩ := tdiv_and_tmod (x := (t.days * 24 + t.hour : ℕ)) (k := 24)
    (d := t.days) (r := t.hour) (by push_cast; rfl) (by omega)
  obtain ⟨hera, hyearOfEra, hdayOfYear⟩ := library_date ht hyear
  simp only [hera] at hyearOfEra hdayOfYear
  simp only [hyearOfEra] at hdayOfYear
  obtain ⟨hmonths, hday, hyears⟩ := library_month ht hyear
  simp only [hmonths] at hyears
  have hmonth : toUnsigned 32 (5 * marchDay t + 2) / 153 = marchMonth t := by
    have hlt := marchDay_lt ht
    rw [toUnsigned_of_lt (by omega) (by omega)]
    exact_mod_cast month_eq ht
  simp only [sysTimeFromNanoseconds, hthousands, hnano, hmillions, hmicro, hseconds, hmilli,
    hminutes, hsecond', hhours, hminute', hdays, hhour', hera, hyearOfEra, hdayOfYear, hmonth,
    hmonths, hday, hyears, SysTime.mk.injEq, true_and]
  refine ⟨?_, ?_, ?_, ?_, ?_, ?_⟩ <;> apply toUnsigned_of_lt <;> omega

/-- **The calendar round trip.** The kernel counts the nanoseconds of a date exactly, and the
library makes the date of them again, with the parts of the second. -/
theorem sysTimeFromNanoseconds_timeToNanoseconds (ht : t.Valid) (hfits : t.nanoseconds < 2 ^ 63) :
    timeToNanoseconds t.year t.month t.day t.hour t.minute t.second = t.nanoseconds ∧
      ∀ sub : ℕ, sub < 1000000000 → t.nanoseconds + sub < 2 ^ 63 →
        sysTimeFromNanoseconds
            (timeToNanoseconds t.year t.month t.day t.hour t.minute t.second + sub) =
          { years := t.year
            months := t.month
            days := t.day
            hours := t.hour
            minutes := t.minute
            seconds := t.second
            miliseconds := (sub / 1000000 : ℕ)
            microseconds := (sub / 1000 % 1000 : ℕ)
            nanoseconds := (sub % 1000 : ℕ) } := by
  have hexact := timeToNanoseconds_eq ht hfits
  refine ⟨hexact, fun sub hsub hsum => ?_⟩
  rw [hexact]
  exact sysTimeFromNanoseconds_eq ht hsub hsum

/-- The last second of a leap day at the end of a century. -/
def leapDay : DateTime := ⟨2000, 2, 29, 23, 59, 59⟩

lemma leapDay_valid : leapDay.Valid := by
  constructor <;> decide

theorem sysTimeFromNanoseconds_leapDay :
    timeToNanoseconds leapDay.year leapDay.month leapDay.day leapDay.hour leapDay.minute
        leapDay.second = leapDay.nanoseconds ∧
      sysTimeFromNanoseconds (timeToNanoseconds leapDay.year leapDay.month leapDay.day
          leapDay.hour leapDay.minute leapDay.second + (123456789 : ℕ)) =
        ⟨2000, 2, 29, 23, 59, 59, 123, 456, 789⟩ := by
  have hfits : leapDay.nanoseconds < 2 ^ 63 := by decide
  have hsum : leapDay.nanoseconds + 123456789 < 2 ^ 63 := by decide
  have hround := sysTimeFromNanoseconds_timeToNanoseconds leapDay_valid hfits
  exact ⟨hround.1, hround.2 123456789 (by norm_num) hsum⟩

end

end KernelModel.Calendar
