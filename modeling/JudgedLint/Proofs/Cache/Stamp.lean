import JudgedLint.Cache.Stamp
import JudgedLint.Proofs.Calendar
import JudgedLint.Proofs.Except
import JudgedLint.Proofs.Form.Reader
import JudgedLint.Proofs.Text.Numeral

/-! Timestamps: whatever text or number one is read from, it is a moment of the calendar with a zone
in whole minutes; and the text in which such a moment is stored is read back as the same moment. -/
namespace JudgedLint

open Calendar (Date Moment)
open Decimal (padded)

/-- A moment of the calendar, in a zone that lies whole minutes and less than a day from universal
time. -/
structure Calendar.Moment.IsStamp (m : Moment) : Prop where
  date : m.date.isValid = true
  time : m.hasValidTime = true
  zone : ∀ o, m.offset = some o → o % 60 = 0 ∧ o.natAbs < 86400

namespace Cache

variable {cs rest : List Char} {m : Moment} {n : Nat}

theorem dateText?_valid {d : Date} (h : dateText? cs = some (d, rest)) : d.isValid = true := by
  obtain ⟨⟨century, r₁⟩, _, h⟩ := Option.bind_eq_some_iff.mp h
  obtain ⟨⟨year, r₂⟩, _, h⟩ := Option.bind_eq_some_iff.mp h
  simp only at h
  split at h
  · obtain ⟨⟨month, r₃⟩, _, h⟩ := Option.bind_eq_some_iff.mp h
    simp only at h
    split at h
    · obtain ⟨⟨day, r₄⟩, _, h⟩ := Option.bind_eq_some_iff.mp h
      simp only at h
      split at h
      · next hvalid =>
        cases h
        exact hvalid
      · cases h
    · cases h
  · cases h

theorem zone?_minutes {o : Int} (h : zone? cs = some (some o)) : o % 60 = 0 ∧ o.natAbs < 86400 := by
  simp only [zone?] at h
  split at h
  · cases h
  · cases h
    decide
  · cases h
    decide
  · split at h
    · obtain ⟨⟨hours, r₁⟩, _, h⟩ := Option.bind_eq_some_iff.mp h
      obtain ⟨⟨minutes, r₂⟩, _, h⟩ := Option.bind_eq_some_iff.mp h
      simp only at h
      split at h
      · cases h
      · split at h
        · cases h
        · cases h
          split <;> omega
    · cases h

theorem momentOfText?_isStamp (h : momentOfText? cs = some m) : m.IsStamp := by
  obtain ⟨⟨date, r₁⟩, hdate, h⟩ := Option.bind_eq_some_iff.mp h
  have hvalid := dateText?_valid hdate
  simp only at h
  split at h
  · cases h
    exact ⟨hvalid, rfl, by simp⟩
  · split at h
    · cases h
    · obtain ⟨⟨hour, r₂⟩, _, h⟩ := Option.bind_eq_some_iff.mp h
      simp only at h
      split at h
      · obtain ⟨⟨minute, r₃⟩, _, h⟩ := Option.bind_eq_some_iff.mp h
        obtain ⟨⟨second, micro, r₄⟩, _, h⟩ := Option.bind_eq_some_iff.mp h
        obtain ⟨offset, hzone, h⟩ := Option.bind_eq_some_iff.mp h
        simp only at h
        split at h
        · next htime =>
          cases h
          refine ⟨hvalid, htime, fun o ho => ?_⟩
          have hoffset : zone? r₄ = some (some o) := by
            rw [hzone]
            exact congrArg some ho
          exact zone?_minutes hoffset
        · cases h
      · cases h

theorem ofUnix_isStamp {seconds : Int} {micro : Nat} (h₁ : earliestSecond ≤ seconds)
    (h₂ : seconds ≤ latestSecond) (hm : micro < 1000000) : (Moment.ofUnix seconds micro).IsStamp := by
  have hdiv : seconds.fdiv 86400 = seconds / 86400 := Int.fdiv_eq_ediv_of_nonneg _ (by decide)
  have hunix : Calendar.unixDay = 719468 := by decide
  simp only [earliestSecond, latestSecond] at h₁ h₂
  refine ⟨?_, ?_, ?_⟩
  · obtain ⟨n, hn⟩ := Int.eq_ofNat_of_zero_le (a := Calendar.unixDay + seconds / 86400) (by omega)
    simp only [Moment.ofUnix, hdiv, hn]
    exact Calendar.ofDayNumber_valid (by omega) (by simp only [Calendar.lastDay]; omega)
  · simp only [Moment.ofUnix, Moment.hasValidTime, hdiv, Bool.and_eq_true, decide_eq_true_eq]
    omega
  · intro o ho
    cases ho
    decide

theorem momentOfCount?_isStamp {k : Int} {micro : Nat} (h : momentOfCount? k micro = some m) :
    m.IsStamp := by
  simp only [momentOfCount?] at h
  generalize (if k.natAbs ≤ millisecondBound then (k, 0)
    else (k.fdiv 1000, ((k - 1000 * k.fdiv 1000) * 1000).toNat)) = counted at h
  split at h
  · cases h
  · next hrange =>
    cases h
    simp only [Bool.or_eq_true, decide_eq_true_eq, not_or, Int.not_lt] at hrange
    exact ofUnix_isStamp hrange.1 hrange.2 (Nat.mod_lt _ (by decide))

theorem momentOfFloat?_isStamp {x : Float} (h : momentOfFloat? x = some m) : m.IsStamp := by
  obtain ⟨whole, _, h⟩ := Option.bind_eq_some_iff.mp h
  exact momentOfCount?_isStamp h

theorem momentOfNumeral?_isStamp (h : momentOfNumeral? cs = some m) : m.IsStamp := by
  simp only [momentOfNumeral?] at h
  obtain ⟨whole, _, h⟩ := Option.bind_eq_some_iff.mp h
  split at h
  · exact momentOfCount?_isStamp h
  · obtain ⟨places, _, h⟩ := Option.bind_eq_some_iff.mp h
    obtain ⟨seconds, _, h⟩ := Option.bind_eq_some_iff.mp h
    exact momentOfCount?_isStamp h
  · cases h

theorem stampReader_isStamp {j : Json} (h : stampReader (.ofJson j) = .ok m) : m.IsStamp := by
  simp only [stampReader, Datum.bare_ofJson] at h
  split at h
  · next found hfound =>
    cases h
    cases j with
    | str s =>
      simp only [Datum.ofJson, momentOfString?] at hfound
      cases htext : momentOfText? s.toList with
      | some found =>
        rw [htext] at hfound
        cases hfound
        exact momentOfText?_isStamp htext
      | none =>
        rw [htext] at hfound
        exact momentOfNumeral?_isStamp hfound
    | int n => exact momentOfCount?_isStamp hfound
    | float x => exact momentOfFloat?_isStamp hfound
    | _ => cases hfound
  · cases h

theorem padded_digits {width : Nat} (hw : 0 < width) (hn : n < 10 ^ width) :
    (padded width n).toList.length = width ∧ (padded width n).toList.all Char.isDigit = true ∧
      Nat.ofDigitChars 10 (padded width n).toList 0 = n := by
  have hlist : (padded width n).toList =
      List.replicate (width - (Nat.toDigits 10 n).length) '0' ++ Nat.toDigits 10 n := by
    simp [padded, Nat.repr_eq_ofList_toDigits]
  have hlen := (Nat.length_toDigits_le_iff (b := 10) (by decide) hw).mpr hn
  rw [hlist]
  refine ⟨?_, ?_, ?_⟩
  · rw [List.length_append, List.length_replicate]
    omega
  · rw [List.all_append, Text.all_isDigit_toDigits, Bool.and_true]
    exact List.all_eq_true.mpr fun c hc => by rw [List.eq_of_mem_replicate hc]; rfl
  · rw [Nat.ofDigitChars_append, Nat.ofDigitChars_replicate_zero, Nat.mul_zero,
      Nat.ofDigitChars_ten_toDigits]

theorem digit2?_digits {a b : Char} (ha : a.isDigit = true) (hb : b.isDigit = true) :
    digit2? (a :: b :: rest) = some (Nat.ofDigitChars 10 [a, b] 0, rest) := by
  simp [digit2?, ha, hb, Nat.ofDigitChars_cons]

theorem digit2?_padded (hn : n < 100) : digit2? ((padded 2 n).toList ++ rest) = some (n, rest) := by
  obtain ⟨hlen, hdigits, hvalue⟩ := padded_digits (by decide : 0 < 2) hn
  generalize (padded 2 n).toList = ds at hlen hdigits hvalue ⊢
  obtain ⟨a, b, rfl⟩ := List.length_eq_two.mp hlen
  simp only [List.all_cons, Bool.and_eq_true] at hdigits
  rw [List.cons_append, List.cons_append, List.nil_append, digit2?_digits hdigits.1 hdigits.2.1,
    hvalue]

theorem digit2?_padded_year (rest : List Char) (hn : n < 10000) :
    ∃ century year mid, 100 * century + year = n ∧
    digit2? ((padded 4 n).toList ++ rest) = some (century, mid) ∧ digit2? mid = some (year, rest) := by
  obtain ⟨hlen, hdigits, hvalue⟩ := padded_digits (by decide : 0 < 4) hn
  generalize (padded 4 n).toList = ds at hlen hdigits hvalue ⊢
  match ds, hlen with
  | [a, b, c, d], _ =>
    simp only [List.all_cons, Bool.and_eq_true] at hdigits
    obtain ⟨ha, hb, hc, hd, _⟩ := hdigits
    refine ⟨_, _, _, ?_, digit2?_digits ha hb, digit2?_digits hc hd⟩
    rw [← hvalue]
    simp only [Nat.ofDigitChars_cons, Nat.ofDigitChars_nil]
    omega

theorem dateText?_text {d : Date} (h : d.isValid = true) :
    dateText? (d.text.toList ++ rest) = some (d, rest) := by
  have hbounds := h
  simp only [Date.isValid, Bool.and_eq_true, decide_eq_true_eq] at hbounds
  obtain ⟨⟨⟨⟨⟨_, hyear⟩, _⟩, hmonth⟩, _⟩, hday⟩ := hbounds
  have hdays : Calendar.daysInMonth d.year d.month ≤ 31 := by
    simp only [Calendar.daysInMonth]
    split
    · split <;> decide
    · split <;> decide
  have hlist : d.text.toList ++ rest = (padded 4 d.year).toList ++ '-' :: ((padded 2 d.month).toList ++
      '-' :: ((padded 2 d.day).toList ++ rest)) := by
    simp [Date.text, ToString.toString]
  obtain ⟨century, year, mid, hsum, hcentury, hrest⟩ :=
    digit2?_padded_year ('-' :: ((padded 2 d.month).toList ++
      '-' :: ((padded 2 d.day).toList ++ rest))) (by omega : d.year < 10000)
  rw [hlist, dateText?, hcentury]
  simp only [Option.bind_eq_bind, Option.bind_some, hrest]
  rw [digit2?_padded (by omega)]
  simp only [Option.bind_some]
  rw [digit2?_padded (by omega)]
  simp only [Option.bind_some, hsum]
  rw [if_pos h]
  rfl

def zoneText (offset : Option Int) : String :=
  match offset with
  | none => ""
  | some o => if o == 0 then "Z" else Calendar.offsetText o

theorem zone?_sign {sign : Char} (hours minutes : Nat) (hs : sign = '+' ∨ sign = '-')
    (hhours : digit2? cs = some (hours, ':' :: rest)) (hminutes : digit2? rest = some (minutes, []))
    (hm : minutes < 60) (hday : hours * 3600 + minutes * 60 < 86400) :
    zone? (sign :: cs) = some (some (if sign == '+' then ((hours * 3600 + minutes * 60 : Nat) : Int)
      else -((hours * 3600 + minutes * 60 : Nat) : Int))) := by
  have hm' : ¬60 ≤ minutes := by omega
  have hday' : (hours : Int) * 3600 + minutes * 60 < 86400 := by omega
  rcases hs with rfl | rfl
  · simp [zone?, hhours, hminutes, hm', hday']
  · simp [zone?, hhours, hminutes, hm', hday']

theorem zone?_zoneText {offset : Option Int}
    (h : ∀ o, offset = some o → o % 60 = 0 ∧ o.natAbs < 86400) :
    zone? (zoneText offset).toList = some offset := by
  cases offset with
  | none => rfl
  | some o =>
    obtain ⟨hminutes, hday⟩ := h o rfl
    rw [zoneText]
    split
    · next hzero =>
      obtain rfl := beq_iff_eq.mp hzero
      rfl
    · have hsecond : o.natAbs % 60 = 0 := by omega
      have htotal : o.natAbs / 3600 * 3600 + o.natAbs / 60 % 60 * 60 = o.natAbs := by omega
      have hlist : (Calendar.offsetText o).toList = (if o < 0 then '-' else '+') ::
          ((padded 2 (o.natAbs / 3600)).toList ++ ':' :: ((padded 2 (o.natAbs / 60 % 60)).toList ++
            [])) := by
        simp only [Calendar.offsetText, hsecond, BEq.rfl, if_true]
        split <;> simp [ToString.toString]
      rw [hlist, zone?_sign (o.natAbs / 3600) (o.natAbs / 60 % 60)
        (by split <;> simp) (digit2?_padded (by omega)) (digit2?_padded (by omega)) (by omega)
        (by omega), htotal]
      by_cases hneg : o < 0
      · rw [if_pos hneg, if_neg (by decide)]
        congr 2
        omega
      · rw [if_neg hneg, if_pos (by decide)]
        congr 2
        omega

def secondsText (m : Moment) : String :=
  ":" ++ padded 2 m.second ++ if m.micro == 0 then "" else "." ++ padded 6 m.micro

theorem seconds?_secondsText (hsecond : m.second < 60) (hmicro : m.micro < 1000000)
    (hrest : ∀ c ∈ rest.head?, c.isDigit = false ∧ c ≠ '.' ∧ c ≠ ',') :
    seconds? ((secondsText m).toList ++ rest) = some (m.second, m.micro, rest) := by
  have hlist : (secondsText m).toList ++ rest = ':' :: ((padded 2 m.second).toList ++
      if m.micro == 0 then rest else '.' :: ((padded 6 m.micro).toList ++ rest)) := by
    rw [secondsText]
    split <;> simp
  rw [hlist, seconds?, digit2?_padded (by omega)]
  simp only [Option.bind_eq_bind, Option.bind_some]
  cases hzero : m.micro == 0 with
  | true =>
    rw [beq_iff_eq.mp hzero, if_pos rfl]
    cases rest with
    | nil => rfl
    | cons c after =>
      obtain ⟨_, hpoint, hcomma⟩ := hrest c rfl
      simp [hpoint, hcomma]
  | false =>
    obtain ⟨hlen, hdigits, hvalue⟩ := padded_digits (by decide : 0 < 6) hmicro
    have hhead : ∀ c ∈ rest.head?, c.isDigit = false := fun c hc => (hrest c hc).1
    obtain ⟨htake, hdrop⟩ := Text.takeWhile_digits hdigits hhead
    generalize (padded 6 m.micro).toList = ds at hlen hdigits hvalue htake hdrop ⊢
    have hne : ds ≠ [] := by
      rintro rfl
      cases hlen
    have hnumber := Text.decimalNumber?_eq_some.mpr ⟨hne, hdigits, hvalue⟩
    simp [htake, hdrop, hne, List.take_of_length_le (Nat.le_of_eq hlen), hlen, hnumber]

theorem stampText_toList (m : Moment) : m.stampText.toList = m.date.text.toList ++ 'T' ::
    ((padded 2 m.hour).toList ++ ':' :: ((padded 2 m.minute).toList ++
      ((secondsText m).toList ++ (zoneText m.offset).toList))) := by
  have htext : m.stampText = m.date.text ++ "T" ++ m.timeText ++ zoneText m.offset := rfl
  rw [htext, Moment.timeText, secondsText]
  split <;> simp [ToString.toString]

theorem zoneText_head? (offset : Option Int) :
    ∀ c ∈ (zoneText offset).toList.head?, c.isDigit = false ∧ c ≠ '.' ∧ c ≠ ',' := by
  cases offset with
  | none =>
    intro c hc
    cases hc
  | some o =>
    rw [zoneText]
    split
    · intro c hc
      cases hc
      decide
    · have hhead : (Calendar.offsetText o).toList.head? = some (if o < 0 then '-' else '+') := by
        simp only [Calendar.offsetText]
        split <;> split <;> simp [ToString.toString]
      intro c hc
      rw [hhead] at hc
      cases hc
      split <;> decide

/-- The text in which a moment is stored is read back as the moment. -/
theorem momentOfString?_stampText (h : m.IsStamp) : momentOfString? m.stampText = some m := by
  have htime := h.time
  simp only [Moment.hasValidTime, Bool.and_eq_true, decide_eq_true_eq] at htime
  obtain ⟨⟨⟨hhour, hminute⟩, hsecond⟩, hmicro⟩ := htime
  have htext : momentOfText? m.stampText.toList = some m := by
    rw [stampText_toList, momentOfText?, dateText?_text h.date]
    simp only [Option.bind_eq_bind, Option.bind_some]
    rw [if_neg (by decide), digit2?_padded (by omega)]
    simp only [Option.bind_some]
    rw [digit2?_padded (by omega)]
    simp only [Option.bind_some]
    rw [seconds?_secondsText (by omega) hmicro]
    · simp only [Option.bind_some]
      rw [zone?_zoneText h.zone]
      simp only [Option.bind_some]
      rw [if_pos h.time]
      rfl
    · exact zoneText_head? m.offset
  rw [momentOfString?, htext]
  rfl

end Cache
end JudgedLint
