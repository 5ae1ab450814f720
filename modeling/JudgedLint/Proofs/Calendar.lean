import JudgedLint.Calendar
import Mathlib.Tactic.ByContra

/-! Every day that is counted from the first of March of year 0 is a day of the calendar. The count
is cut into eras of 400 years; inside one, a year is found from the days that went by without their
leap days. -/
namespace JudgedLint.Calendar

/-- The days of an era in front of a year, the year starting in March. -/
def daysBefore (year : Nat) : Nat := 365 * year + year / 4 - year / 100 + year / 400

/-- The days of an era without the leap days among them, 365 for each year that is over. -/
def daysWithoutLeap (day : Nat) : Nat := day - day / 1460 + day / 36524 - day / 146096

theorem daysWithoutLeap_le_succ (day : Nat) : daysWithoutLeap day ≤ daysWithoutLeap (day + 1) := by
  simp only [daysWithoutLeap]
  omega

theorem daysWithoutLeap_mono {day day' : Nat} (h : day ≤ day') :
    daysWithoutLeap day ≤ daysWithoutLeap day' := by
  induction h with
  | refl => exact Nat.le_refl _
  | step _ ih => exact Nat.le_trans ih (daysWithoutLeap_le_succ _)

/-- Before a year starts fewer days have gone by, and when it starts no fewer. -/
theorem daysWithoutLeap_daysBefore : ∀ year < 400, daysWithoutLeap (daysBefore (year + 1) - 1) <
    365 * (year + 1) ∧ 365 * year ≤ daysWithoutLeap (daysBefore year) := by
  decide +kernel

theorem daysBefore_succ : ∀ year < 400, daysBefore (year + 1) =
    daysBefore year + 365 + if isLeap (year + 1) then 1 else 0 := by
  decide +kernel

theorem month_day : ∀ doy < 366, let mp := (5 * doy + 2) / 153
    mp < 12 ∧ (153 * mp + 2) / 5 ≤ doy ∧
      doy - (153 * mp + 2) / 5 + 1 ≤ daysInMonth (if doy = 365 then 4 else 1)
        (if mp < 10 then mp + 3 else mp - 9) ∧ (mp < 10 ↔ doy < 306) := by
  decide +kernel

variable {era day : Nat}

def yearOf (day : Nat) : Nat := daysWithoutLeap day / 365

theorem yearOf_lt (h : day < 146097) : yearOf day < 400 := by
  have hmono := daysWithoutLeap_mono (Nat.le_of_lt_succ h)
  have hlast : daysWithoutLeap 146096 = 145999 := by decide
  simp only [yearOf]
  omega

theorem daysBefore_le (h : day < 146097) : daysBefore (yearOf day) ≤ day := by
  have hlt := yearOf_lt h
  cases hy : yearOf day with
  | zero => exact Nat.zero_le day
  | succ year =>
    refine Nat.le_of_not_lt fun hday => ?_
    have hmono := daysWithoutLeap_mono (Nat.le_sub_one_of_lt hday)
    have hbefore := (daysWithoutLeap_daysBefore year (by omega)).1
    simp only [yearOf] at hy
    omega

theorem lt_daysBefore (h : day < 146097) : day < daysBefore (yearOf day + 1) := by
  have hlt := yearOf_lt h
  rcases Nat.lt_or_ge (yearOf day + 1) 400 with hnext | hlast
  · refine Nat.lt_of_not_le fun hday => ?_
    have hmono := daysWithoutLeap_mono hday
    have hafter := (daysWithoutLeap_daysBefore (yearOf day + 1) hnext).2
    simp only [yearOf] at hmono hafter
    omega
  · have heq : yearOf day + 1 = 400 := by omega
    rw [heq]
    exact h

def dayOfYear (day : Nat) : Nat := day - daysBefore (yearOf day)

theorem dayOfYear_le (h : day < 146097) :
    dayOfYear day ≤ 364 + if isLeap (yearOf day + 1) then 1 else 0 := by
  have hsucc := daysBefore_succ (yearOf day) (yearOf_lt h)
  have hlt := lt_daysBefore h
  simp only [dayOfYear]
  omega

theorem ofDayNumber_eq (h : day < 146097) : Date.ofDayNumber (146097 * era + day : Nat) =
    let mp := (5 * dayOfYear day + 2) / 153
    ⟨yearOf day + 400 * era + if mp < 10 then 0 else 1, if mp < 10 then mp + 3 else mp - 9,
      dayOfYear day - (153 * mp + 2) / 5 + 1⟩ := by
  have hera : ((146097 * era + day : Nat) : Int) / 146097 = era := by omega
  have hday : ((146097 * era + day : Nat) : Int) - era * 146097 = day := by omega
  have hyear : ((day : Int) - day / 1460 + day / 36524 - day / 146096) / 365 = yearOf day := by
    simp only [yearOf, daysWithoutLeap]
    omega
  have hbefore := daysBefore_le h
  have hlt := yearOf_lt h
  have hdoy : (day : Int) - (365 * yearOf day + yearOf day / 4 - yearOf day / 100) =
      dayOfYear day := by
    simp only [dayOfYear]
    simp only [daysBefore] at hbefore ⊢
    omega
  have hdoyle : dayOfYear day < 366 := by
    have := dayOfYear_le h
    split at this <;> omega
  obtain ⟨hmp, hfirst, _⟩ := month_day (dayOfYear day) hdoyle
  generalize hm : (5 * dayOfYear day + 2) / 153 = mp at hmp hfirst ⊢
  have hmonth : (5 * (dayOfYear day : Int) + 2) / 153 = mp := by omega
  simp (disch := decide) only [Date.ofDayNumber, Int.fdiv_eq_ediv_of_nonneg, hera, hday, hyear, hdoy,
    hmonth, Date.mk.injEq]
  rcases Nat.lt_or_ge mp 10 with hlow | hhigh
  · have hlow' : (mp : Int) < 10 := by omega
    have hmarch : ¬(mp : Int) + 3 ≤ 2 := by omega
    simp only [hlow, hlow', hmarch, if_true, if_false]
    omega
  · have hhigh' : ¬(mp : Int) < 10 := by omega
    have hjanuary : (mp : Int) - 9 ≤ 2 := by omega
    simp only [Nat.not_lt.mpr hhigh, hhigh', hjanuary, if_true, if_false]
    omega

theorem isLeap_add_eras (year era : Nat) : isLeap (year + 400 * era) = isLeap year := by
  simp only [isLeap]
  rw [show (year + 400 * era) % 4 = year % 4 by omega,
    show (year + 400 * era) % 100 = year % 100 by omega,
    show (year + 400 * era) % 400 = year % 400 by omega]

/-- Only February has more days in some years than in others. -/
theorem daysInMonth_le {year month : Nat} (year' : Nat)
    (h : isLeap year = true → month = 2 → isLeap year' = true) :
    daysInMonth year month ≤ daysInMonth year' month := by
  simp only [daysInMonth]
  split
  · next hmonth =>
    cases hleap : isLeap year with
    | true => simp [h hleap (beq_iff_eq.mp hmonth)]
    | false =>
      rw [if_neg Bool.false_ne_true]
      split
      · exact Nat.le_succ 28
      · exact Nat.le_refl 28
  · exact Nat.le_refl _

def lastDay : Nat := 3652364

example : (Date.mk 9999 12 31).dayNumber = lastDay := by decide

theorem ofDayNumber_valid {n : Nat} (h₁ : 146097 ≤ n) (h₂ : n ≤ lastDay) :
    (Date.ofDayNumber n).isValid = true := by
  obtain ⟨era, day, hday, rfl⟩ : ∃ era day, day < 146097 ∧ n = 146097 * era + day :=
    ⟨n / 146097, n % 146097, Nat.mod_lt _ (by decide), (Nat.div_add_mod n 146097).symm⟩
  have hyear := yearOf_lt hday
  have hbefore := daysBefore_le hday
  have hdoy := dayOfYear_le hday
  have hdoylt : dayOfYear day < 366 := by
    split at hdoy <;> omega
  obtain ⟨hmp, hfirst, hmonth, hten⟩ := month_day (dayOfYear day) hdoylt
  rw [ofDayNumber_eq hday]
  generalize (5 * dayOfYear day + 2) / 153 = mp at hmp hfirst hmonth hten ⊢
  have hlong : isLeap (if dayOfYear day = 365 then 4 else 1) = true →
      isLeap (yearOf day + 1) = true := by
    intro hleap
    split at hleap
    · by_contra hnot
      rw [if_neg hnot] at hdoy
      omega
    · cases hleap
  simp only [daysBefore] at hbefore
  simp only [lastDay] at h₂
  simp only [dayOfYear, daysBefore] at hfirst hten
  rcases Nat.lt_or_ge mp 10 with hlow | hhigh
  · simp only [hlow, if_true] at hmonth ⊢
    have hdays := Nat.le_trans hmonth (daysInMonth_le (yearOf day + 400 * era + 0)
      (by omega))
    simp only [Date.isValid, Bool.and_eq_true, decide_eq_true_eq]
    omega
  · simp only [Nat.not_lt.mpr hhigh, if_false] at hmonth ⊢
    have hdays := Nat.le_trans hmonth (daysInMonth_le (yearOf day + 400 * era + 1)
      fun hleap _ => by
        rw [Nat.add_right_comm, isLeap_add_eras]
        exact hlong hleap)
    simp only [Date.isValid, Bool.and_eq_true, decide_eq_true_eq]
    simp only [dayOfYear, daysBefore] at hdays ⊢
    omega

end JudgedLint.Calendar
