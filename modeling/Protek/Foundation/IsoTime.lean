import Protek.Foundation.ClockOrder
import Protek.Foundation.PyText

/-! # Times in ISO 8601 and the clock of SQLite

A time of the calendar in a year of four digits, and the texts that write it in UTC with
a `T` between the date and the time. SQLite writes a space there, so its texts compare
with these by their dates alone.
-/
namespace Foundation.Clock
open Foundation.PyText

structure CalendarTime where
  year : ℕ
  month : ℕ
  dayOfMonth : ℕ
  time : Instant
  year_lt : year < 10000
  month_bounds : 1 ≤ month ∧ month ≤ 12
  day_bounds : 1 ≤ dayOfMonth ∧ dayOfMonth ≤ 31
  time_lt : time < day

namespace CalendarTime

def date (e : CalendarTime) : ℕ × ℕ × ℕ := (e.year,e.month,e.dayOfMonth)

/-- The instant comes before the time. -/
def Awaits (e : CalendarTime) (t : Instant) : Prop :=
  DateLt (civil (t / day)) e.date ∨ (civil (t / day) = e.date ∧ t % day < e.time)

/-- The instant is on the date of the time, and not before it. -/
def PastOnTheDay (e : CalendarTime) (t : Instant) : Prop := civil (t / day) = e.date ∧ e.time ≤ t % day

theorem fits_date (e : CalendarTime) : Fits e.date :=
  ⟨e.year_lt,e.month_bounds.2.trans_lt (by decide),e.day_bounds.2.trans_lt (by decide)⟩

end CalendarTime

theorem civil_pos (n : ℕ) : 1 ≤ (civil n).2.1 ∧ 1 ≤ (civil n).2.2 := by
  obtain ⟨y,r,-,-,-,hcivil⟩ := civil_eq n
  rw [hcivil]
  unfold ofMarch
  dsimp only
  split <;> constructor <;> omega

/-- The calendar's time of an instant. -/
def CalendarTime.ofInstant (t : Instant) (h : t < endOfTime) : CalendarTime where
  year := (civil (t / day)).1
  month := (civil (t / day)).2.1
  dayOfMonth := (civil (t / day)).2.2
  time := t % day
  year_lt := (fits_civil h).1
  month_bounds := ⟨(civil_pos _).1,Nat.lt_succ_iff.mp (civil_bounds _).1⟩
  day_bounds := ⟨(civil_pos _).2,Nat.lt_succ_iff.mp (civil_bounds _).2⟩
  time_lt := Nat.mod_lt t (by decide)

theorem civil_injective : Function.Injective civil := by
  intro a b h
  rcases Nat.lt_trichotomy a b with hlt | heq | hgt
  · have := civil_lt hlt
    rw [h] at this
    exact absurd this this.asymm
  · exact heq
  · have := civil_lt hgt
    rw [h] at this
    exact absurd this this.asymm

/-- From 1970 on, what comes before a time of the calendar is what comes before the instant. -/
theorem CalendarTime.awaits_ofInstant {t u : Instant} (h : u < endOfTime) : (ofInstant u h).Awaits t ↔ t < u := by
  have ht := Nat.div_add_mod t day
  have hu := Nat.div_add_mod u day
  constructor
  · rintro (hlt | ⟨heq,htime⟩)
    · by_contra hle
      have hdays : u / day ≤ t / day := Nat.div_le_div_right (Nat.not_lt.mp hle)
      rcases Nat.lt_or_eq_of_le hdays with hday | hday
      · exact hlt.asymm (civil_lt hday)
      · have hself : DateLt (civil (u / day)) (civil (u / day)) := by rwa [← hday] at hlt
        exact hself.asymm hself
    · rw [← ht, ← hu, civil_injective heq]
      exact Nat.add_lt_add_left htime _
  · intro hlt
    rcases Nat.lt_or_eq_of_le (Nat.div_le_div_right hlt.le : t / day ≤ u / day) with hday | hday
    · exact Or.inl (civil_lt hday)
    · refine Or.inr ⟨congrArg civil hday,?_⟩
      rw [← ht, ← hu, hday] at hlt
      exact Nat.lt_of_add_lt_add_left hlt

def minuteText (time : Instant) : String := pad 2 (time / hour) ++ ":" ++ pad 2 (time / (60 * second) % 60)

def secondText (time : Instant) : String := minuteText time ++ ":" ++ pad 2 (time / second % 60)

/-- A time of the day to the minute, to the second or with a fraction of the second. -/
inductive TimeForm (time : Instant) : String → Prop
  | minutes (h : time % (60 * second) = 0) : TimeForm time (minuteText time)
  | seconds (h : time % second = 0) : TimeForm time (secondText time)
  | fraction (places n : ℕ) (hplaces : 1 ≤ places ∧ places ≤ 6) (h : n * 10 ^ (6 - places) = time % second) :
      TimeForm time (secondText time ++ "." ++ pad places n)

/-- The texts of the time in UTC. -/
def IsoText (e : CalendarTime) (text : String) : Prop :=
  ∃ form, TimeForm e.time form ∧ ∃ zone ∈ ["","Z","+00:00"], text = dateOf e.date ++ ("T" ++ (form ++ zone))

/-- SQLite's clock is below the text up to the end of the day of the time. -/
theorem sqliteDatetime_lt_iff {e : CalendarTime} {text : String} (h : IsoText e text) {t : Instant} (ht : t < endOfTime) :
    sqliteDatetime t < text ↔ ¬ DateLt e.date (civil (t / day)) := by
  obtain ⟨form,-,zone,-,rfl⟩ := h
  have hlen : (dateOf (civil (t / day))).toList.length = (dateOf e.date).toList.length := by
    rw [length_dateOf (fits_civil ht), length_dateOf e.fits_date]
  have htext : (sqliteDatetime t).toList = (dateOf (civil (t / day))).toList ++ ' ' :: (timeText t).toList := by
    rw [sqliteDatetime, dateText_eq]
    simp [String.toList_append]
  have hiso : (dateOf e.date ++ ("T" ++ (form ++ zone))).toList = (dateOf e.date).toList ++ 'T' :: (form ++ zone).toList := by
    simp [String.toList_append]
  change (sqliteDatetime t).toList < (dateOf e.date ++ ("T" ++ (form ++ zone))).toList ↔ _
  rw [htext, hiso]
  rcases dateLt_trichotomy (civil (t / day)) e.date with hlt | heq | hgt
  · exact iff_of_true (append_lt_append hlen (Or.inl (dateOf_lt hlt (fits_civil ht) e.fits_date))) hlt.asymm
  · refine iff_of_true (append_lt_append hlen (Or.inr ⟨by rw [heq],?_⟩)) (fun hgt => ?_)
    · exact List.cons_lt_cons_iff.mpr (Or.inl (by decide))
    · rw [heq] at hgt
      exact hgt.asymm hgt
  · refine iff_of_false (fun hlt => ?_) (not_not.mpr hgt)
    exact List.lt_asymm hlt (append_lt_append hlen.symm (Or.inl (dateOf_lt hgt e.fits_date (fits_civil ht))))

/-! ## The texts hold no white space -/

def solid (s : String) : Bool := s.toList.all (fun c => !isSpace c)

@[simp] theorem solid_append (a b : String) : solid (a ++ b) = (solid a && solid b) := by
  rw [solid, String.toList_append, List.all_append]
  rfl

@[simp] theorem solid_pad (w n : ℕ) : solid (pad w n) = true := by
  rw [solid, List.all_eq_true]
  intro c hc
  rw [toList_pad, List.mem_append] at hc
  rcases hc with hc | hc
  · rw [List.eq_of_mem_replicate hc]
    decide
  · rw [isSpace_of_isDigit (isDigit_of_mem_toDigits hc)]
    rfl

theorem strip_of_solid {s : String} (h : solid s = true) : strip s = s :=
  strip_eq_self (fun c hc => by simpa using List.all_eq_true.mp h c hc)

theorem solid_of_timeForm {time : Instant} {form : String} (h : TimeForm time form) : solid form = true := by
  have hcolon : solid ":" = true := by decide
  have hpoint : solid "." = true := by decide
  have hminute : solid (minuteText time) = true := by simp [minuteText, hcolon]
  cases h with
  | minutes => exact hminute
  | seconds => simp [secondText, hminute, hcolon]
  | fraction => simp [secondText, hminute, hcolon, hpoint]

theorem strip_isoText {e : CalendarTime} {text : String} (h : IsoText e text) : strip text = text := by
  obtain ⟨form,hform,zone,hzone,rfl⟩ := h
  have hzones : ["","Z","+00:00"].all solid = true := by decide
  have hdash : solid "-" = true := by decide
  have hsep : solid "T" = true := by decide
  exact strip_of_solid (by
    simp [dateOf, hdash, hsep, solid_of_timeForm hform, List.all_eq_true.mp hzones zone hzone])

end Foundation.Clock
