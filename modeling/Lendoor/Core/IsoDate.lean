import Lendoor.Core.Numerals
import Mathlib.Data.Nat.Log

/-! # Timestamps

A time in milliseconds since 1970 as a date of the civil calendar, and the text that
`toISOString` writes for it. No two times are written alike.
-/

namespace Lendoor.IsoDate

/-! ## The calendar -/

structure Date where
  year : Nat
  month : Nat
  day : Nat
  deriving DecidableEq

/-- The day of an era of 400 years, the years counted from March on: its year, and the day
of that year. A leap day is the last day of its year. -/
def yearOfEra (doe : Nat) : Nat × Nat :=
  let century := min (doe / 36524) 3
  let inCentury := doe - 36524 * century
  let inLeapCycle := inCentury % 1461
  let year := min (inLeapCycle / 365) 3
  (100 * century + 4 * (inCentury / 1461) + year, inLeapCycle - 365 * year)

/-- The date of a day, counted from the first of March of the year 0. -/
def ofEraDays (z : Nat) : Date :=
  let (yoe, doy) := yearOfEra (z % 146097)
  let mp := (5 * doy + 2) / 153
  let day := doy - (153 * mp + 2) / 5 + 1
  if mp < 10 then ⟨z / 146097 * 400 + yoe, mp + 3, day⟩
  else ⟨z / 146097 * 400 + yoe + 1, mp - 9, day⟩

/-- The day of a date, so counted. -/
def toEraDays (date : Date) : Nat :=
  let year := if date.month ≤ 2 then date.year - 1 else date.year
  let mp := if date.month ≤ 2 then date.month + 9 else date.month - 3
  let yoe := year % 400
  year / 400 * 146097 + (365 * yoe + yoe / 4 - yoe / 100 + ((153 * mp + 2) / 5 + (date.day - 1)))

/-- The date of a day, counted from the first of January 1970. -/
def ofDays (days : Nat) : Date := ofEraDays (days + 719468)

theorem yearOfEra_spec {doe yoe doy : Nat} (hdoe : doe < 146097) (h : yearOfEra doe = (yoe, doy)) :
    yoe < 400 ∧ doy ≤ 365 ∧ 365 * yoe + yoe / 4 - yoe / 100 + doy = doe := by
  have hcentury : min (doe / 36524) 3 ≤ 3 ∧ 36524 * min (doe / 36524) 3 ≤ doe ∧
      doe - 36524 * min (doe / 36524) 3 ≤ 36524 := by omega
  simp only [yearOfEra, Prod.mk.injEq] at h
  generalize min (doe / 36524) 3 = century at h hcentury
  generalize hr : doe - 36524 * century = r at h hcentury
  have hyear : min (r % 1461 / 365) 3 ≤ 3 ∧ 365 * min (r % 1461 / 365) 3 ≤ r % 1461 ∧
      r % 1461 - 365 * min (r % 1461 / 365) 3 ≤ 365 := by omega
  generalize min (r % 1461 / 365) 3 = year at h hyear
  have hcycle : r / 1461 ≤ 24 := by omega
  have hquarters : yoe / 4 = 25 * century + r / 1461 := by omega
  have hcenturies : yoe / 100 = century := by omega
  omega

theorem toEraDays_ofEraDays (z : Nat) : toEraDays (ofEraDays z) = z := by
  rcases hyear : yearOfEra (z % 146097) with ⟨yoe, doy⟩
  rcases yearOfEra_spec (Nat.mod_lt _ (by omega)) hyear with ⟨hyoe, hdoy, hday⟩
  have heras : (z / 146097 * 400 + yoe) / 400 = z / 146097 := by omega
  have hyears : (z / 146097 * 400 + yoe) % 400 = yoe := by omega
  simp only [ofEraDays, hyear]
  by_cases hmarch : (5 * doy + 2) / 153 < 10
  · have hmonth : ¬(5 * doy + 2) / 153 + 3 ≤ 2 := by omega
    simp only [if_pos hmarch, toEraDays, if_neg hmonth]
    rw [heras, hyears]
    omega
  · have hmonth : (5 * doy + 2) / 153 - 9 ≤ 2 := by omega
    simp only [if_neg hmarch, toEraDays, if_pos hmonth, Nat.add_sub_cancel]
    rw [heras, hyears]
    omega

theorem ofEraDays_bounds (z : Nat) : (ofEraDays z).month ≤ 12 ∧ (ofEraDays z).day ≤ 31 := by
  rcases hyear : yearOfEra (z % 146097) with ⟨yoe, doy⟩
  have hdoy := (yearOfEra_spec (Nat.mod_lt _ (by omega)) hyear).2.1
  simp only [ofEraDays, hyear]
  by_cases hmarch : (5 * doy + 2) / 153 < 10
  · simp only [if_pos hmarch]
    omega
  · simp only [if_neg hmarch]
    omega

theorem ofDays_injective {days days' : Nat} (h : ofDays days = ofDays days') : days = days' := by
  have hz := congrArg toEraDays h
  rw [ofDays, ofDays, toEraDays_ofEraDays, toEraDays_ofEraDays] at hz
  exact Nat.add_right_cancel hz

example : ofDays 0 = ⟨1970, 1, 1⟩ ∧ ofDays 11016 = ⟨2000, 2, 29⟩ ∧ ofDays 20513 = ⟨2026, 3, 1⟩ := by
  decide

/-! ## The text -/

def decimalDigits : List Char := ['0', '1', '2', '3', '4', '5', '6', '7', '8', '9']

/-- A number in at least `width` digits. -/
def padded (width n : Nat) : List Char :=
  Numerals.spell decimalDigits (max width (Nat.log 10 n + 1)) n

/-- Four digits, or a sign and six. -/
def yearText (year : Nat) : List Char := if year ≤ 9999 then padded 4 year else '+' :: padded 6 year

/-- Month, day and time of day, in fields of fixed width. -/
def afterYear (date : Date) (ms : Nat) : List Char :=
  '-' :: (padded 2 date.month ++ '-' :: (padded 2 date.day ++ 'T' ::
    (padded 2 (ms / 3600000 % 24) ++ ':' :: (padded 2 (ms / 60000 % 60) ++ ':' ::
      (padded 2 (ms / 1000 % 60) ++ '.' :: (padded 3 (ms % 1000) ++ ['Z']))))))

/-- `toISOString` -/
def toISOString (ms : Nat) : List Char :=
  yearText (ofDays (ms / 86400000)).year ++ afterYear (ofDays (ms / 86400000)) ms

theorem value_padded (width n : Nat) : Numerals.value decimalDigits (padded width n) = n := by
  rw [padded, Numerals.value_spell (by decide) (by decide)]
  refine Nat.mod_eq_of_lt ?_
  calc n < 10 ^ (Nat.log 10 n + 1) := Nat.lt_pow_succ_log_self (by omega) n
    _ ≤ 10 ^ max width (Nat.log 10 n + 1) := Nat.pow_le_pow_right (by omega) (le_max_right ..)

theorem padded_injective {width n m : Nat} (h : padded width n = padded width m) : n = m := by
  rw [← value_padded width n, h, value_padded]

theorem padded_length {width n : Nat} (hpos : 0 < width) (h : n < 10 ^ width) :
    (padded width n).length = width := by
  rw [padded, Numerals.spell_length]
  exact max_eq_left (Nat.log_lt_of_lt_pow' (by omega) h)

theorem mem_padded {width n : Nat} {c : Char} (h : c ∈ padded width n) : c ∈ decimalDigits :=
  Numerals.spelled_spell (by decide) _ _ c h

theorem head_padded_ne {width n : Nat} {c : Char} (hc : c ∉ decimalDigits) (rest : List Char) :
    padded width n ≠ c :: rest := by
  intro h
  exact hc (mem_padded (n := n) (h ▸ List.mem_cons_self))

theorem yearText_injective {year year' : Nat} (h : yearText year = yearText year') :
    year = year' := by
  by_cases hyear : year ≤ 9999
  · by_cases hyear' : year' ≤ 9999
    · rw [yearText, yearText, if_pos hyear, if_pos hyear'] at h
      exact padded_injective h
    · rw [yearText, yearText, if_pos hyear, if_neg hyear'] at h
      exact absurd h (head_padded_ne (by decide) _)
  · by_cases hyear' : year' ≤ 9999
    · rw [yearText, yearText, if_neg hyear, if_pos hyear'] at h
      exact absurd h.symm (head_padded_ne (by decide) _)
    · rw [yearText, yearText, if_neg hyear, if_neg hyear', List.cons.injEq] at h
      exact padded_injective h.2

/-- Fields of one width are cut off one by one. -/
theorem padded_append_inj {width n m : Nat} {xs ys : List Char} (hpos : 0 < width)
    (hn : n < 10 ^ width) (hm : m < 10 ^ width)
    (h : padded width n ++ xs = padded width m ++ ys) : n = m ∧ xs = ys := by
  rcases List.append_inj h ((padded_length hpos hn).trans (padded_length hpos hm).symm)
    with ⟨hfield, hrest⟩
  exact ⟨padded_injective hfield, hrest⟩

/-- The fields are as wide as they say. -/
structure Fits (date : Date) (ms : Nat) : Prop where
  month : date.month < 10 ^ 2
  day : date.day < 10 ^ 2
  hour : ms / 3600000 % 24 < 10 ^ 2
  minute : ms / 60000 % 60 < 10 ^ 2
  second : ms / 1000 % 60 < 10 ^ 2
  millisecond : ms % 1000 < 10 ^ 3

theorem fits_ofDays (ms : Nat) : Fits (ofDays (ms / 86400000)) ms := by
  rcases ofEraDays_bounds (ms / 86400000 + 719468) with ⟨hmonth, hday⟩
  constructor
  · exact Nat.lt_of_le_of_lt hmonth (by omega)
  · exact Nat.lt_of_le_of_lt hday (by omega)
  all_goals omega

theorem Fits.length {date : Date} {ms : Nat} (h : Fits date ms) :
    (afterYear date ms).length = 20 := by
  simp only [afterYear, List.length_cons, List.length_append, List.length_nil]
  rw [padded_length (by omega) h.month, padded_length (by omega) h.day,
    padded_length (by omega) h.hour, padded_length (by omega) h.minute,
    padded_length (by omega) h.second, padded_length (by omega) h.millisecond]

theorem Fits.injective {date date' : Date} {ms ms' : Nat} (h : Fits date ms) (h' : Fits date' ms')
    (heq : afterYear date ms = afterYear date' ms') :
    date.month = date'.month ∧ date.day = date'.day ∧
      ms % 86400000 = ms' % 86400000 := by
  simp only [afterYear, List.cons.injEq, true_and] at heq
  rcases padded_append_inj (by omega) h.month h'.month heq with ⟨hmonth, hrest⟩
  rcases padded_append_inj (by omega) h.day h'.day (List.cons.inj hrest).2 with ⟨hday, hrest⟩
  rcases padded_append_inj (by omega) h.hour h'.hour (List.cons.inj hrest).2 with ⟨hhour, hrest⟩
  rcases padded_append_inj (by omega) h.minute h'.minute (List.cons.inj hrest).2
    with ⟨hminute, hrest⟩
  rcases padded_append_inj (by omega) h.second h'.second (List.cons.inj hrest).2
    with ⟨hsecond, hrest⟩
  rcases padded_append_inj (by omega) h.millisecond h'.millisecond (List.cons.inj hrest).2
    with ⟨hms, -⟩
  refine ⟨hmonth, hday, ?_⟩
  omega

theorem toISOString_injective : Function.Injective toISOString := by
  intro ms ms' h
  have hfits := fits_ofDays ms
  have hfits' := fits_ofDays ms'
  rcases List.append_inj' h (hfits.length.trans hfits'.length.symm) with ⟨hyear, hafter⟩
  rcases hfits.injective hfits' hafter with ⟨hmonth, hday, htime⟩
  have hdate : ofDays (ms / 86400000) = ofDays (ms' / 86400000) := by
    cases hd : ofDays (ms / 86400000)
    cases hd' : ofDays (ms' / 86400000)
    simp only [hd, hd'] at hyear hmonth hday
    rw [yearText_injective hyear, hmonth, hday]
  have hdays := ofDays_injective hdate
  omega

/-- It is one line. -/
theorem newline_not_mem_toISOString (ms : Nat) : '\n' ∉ toISOString ms := by
  have hfield : ∀ width n, '\n' ∉ padded width n := fun _ _ h => absurd (mem_padded h) (by decide)
  intro h
  simp only [toISOString, yearText, afterYear, List.mem_append, List.mem_cons, hfield, false_or]
    at h
  split at h <;> simp [hfield] at h

example : toISOString 951782399999 = "2000-02-28T23:59:59.999Z".toList := by decide +kernel

end Lendoor.IsoDate
