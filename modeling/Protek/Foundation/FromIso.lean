import Protek.Foundation.IsoTime
import Mathlib.Algebra.Order.Ring.Int
import Mathlib.Tactic.IntervalCases

/-! # Reading ISO 8601

`fromisoformat` is Python's `datetime.fromisoformat`, which gives a wall clock and, where
the text names one, its offset from UTC. It reads `isoformat` back.
-/
namespace Foundation.Clock
open Foundation.PyText

/-- The wall clock counts microseconds from 1970, and so does the offset of an aware datetime. -/
structure DateTime where
  wall : ℤ
  offset : Option ℤ
deriving DecidableEq

namespace DateTime

/-- The instant of an aware datetime. -/
def aware (d : DateTime) : Option ℤ := d.offset.map (d.wall - ·)

/-- The instant, with the wall clock of a naive datetime taken as UTC. -/
def asUtc (d : DateTime) : ℤ := d.wall - d.offset.getD 0

end DateTime

/-! ## The calendar -/

def isLeap (y : ℕ) : Bool := y % 4 = 0 && (y % 100 ≠ 0 || y % 400 = 0)

def daysInMonth (y m : ℕ) : ℕ :=
  if m = 2 then (if isLeap y then 29 else 28) else if m = 4 ∨ m = 6 ∨ m = 9 ∨ m = 11 then 30 else 31

def daysBeforeYear (y : ℕ) : ℕ := (y - 1) * 365 + (y - 1) / 4 - (y - 1) / 100 + (y - 1) / 400

def daysBeforeMonth (y m : ℕ) : ℕ :=
  [0,31,59,90,120,151,181,212,243,273,304,334].getD (m - 1) 0 + (if m > 2 ∧ isLeap y then 1 else 0)

/-- The days to a date, where 0001-01-01 is day 1. -/
def ymd2ord (y m d : ℕ) : ℕ := daysBeforeYear y + daysBeforeMonth y m + d

def ordinalOf (y m d : ℕ) : Option ℕ :=
  if 1 ≤ y ∧ y ≤ 9999 ∧ 1 ≤ m ∧ m ≤ 12 ∧ 1 ≤ d ∧ d ≤ daysInMonth y m then some (ymd2ord y m d) else none

/-- The Monday of the first ISO week of a year. -/
def isoWeek1Monday (y : ℕ) : ℤ :=
  let firstday : ℤ := ymd2ord y 1 1
  let firstweekday := (firstday + 6) % 7
  let week1monday := firstday - firstweekday
  if firstweekday > 3 then week1monday + 7 else week1monday

def isoWeekOrdinal (y week d : ℕ) : Option ℕ :=
  let firstWeekday := ymd2ord y 1 1 % 7
  let long : Bool := firstWeekday = 4 || (firstWeekday = 3 && isLeap y)
  if 1 ≤ y ∧ y ≤ 9999 ∧ 1 ≤ week ∧ (week < 53 ∨ (week = 53 ∧ long)) ∧ 1 ≤ d ∧ d < 8 then
    let ord := isoWeek1Monday y + (week - 1) * 7 + (d - 1)
    if 1 ≤ ord ∧ ord ≤ 3652059 then some ord.toNat else none
  else none

/-- The ordinal of 1970-01-01. -/
def epochOrdinal : ℕ := 719163

/-! ## The reader -/

def number (cs : List Char) : Option ℕ := (digits 10 cs).map (ofDigits 10)

/-- A number of so many digits, and what follows it. -/
def takeNumber (n : ℕ) (cs : List Char) : Option (ℕ × List Char) :=
  if n ≤ cs.length then (number (cs.take n)).map (fun x => (x,cs.drop n)) else none

/-- Where the date ends, by its fifth character and the ones after it. -/
def findSeparator (cs : List Char) : Option ℕ :=
  if cs.length < 7 then none
  else if cs.length = 7 then some 7
  else if cs[4]? = some '-' then
    if cs[5]? = some 'W' then
      if cs[8]? = some '-' then
        if cs.length = 9 then none else if cs[10]?.any Char.isDigit then some 8 else some 10
      else some 8
    else some 10
  else if cs[4]? = some 'W' then
    let index := 7 + ((cs.drop 7).takeWhile Char.isDigit).length
    if index < 9 then some index else if index % 2 = 0 then some 7 else some 8
  else some 8

/-- The separator, or nothing where the date has none. -/
def skip (uses : Bool) (sep : Char) (cs : List Char) : Option (List Char) :=
  if uses then (if cs.head? = some sep then some cs.tail else none) else some cs

def parseDate (cs : List Char) : Option ℕ := do
  let (year,rest) ← takeNumber 4 cs
  let dashed : Bool := rest.head? = some '-'
  let rest ← skip dashed '-' rest
  if rest.head? = some 'W' then
    let (week,rest) ← takeNumber 2 rest.tail
    if rest = [] then isoWeekOrdinal year week 1
    else
      let rest ← skip dashed '-' rest
      let (weekday,rest) ← takeNumber 1 rest
      if rest = [] then isoWeekOrdinal year week weekday else none
  else
    let (month,rest) ← takeNumber 2 rest
    let rest ← skip dashed '-' rest
    let (dayOfMonth,rest) ← takeNumber 2 rest
    if rest = [] then ordinalOf year month dayOfMonth else none

/-- Hours, minutes, seconds and microseconds. -/
structure ClockTime where
  hours : ℕ
  minutes : ℕ
  seconds : ℕ
  micros : ℕ

def ClockTime.total (c : ClockTime) : ℕ := (c.hours * 3600 + c.minutes * 60 + c.seconds) * second + c.micros

/-- The digits after the point; those past the sixth are dropped. -/
def parseFraction (cs : List Char) : Option ℕ :=
  if cs = [] then none
  else (number cs).bind (fun _ => (number (cs.take 6)).map (fun n => n * 10 ^ (6 - (cs.take 6).length)))

def parseClock (cs : List Char) : Option ClockTime := do
  let (hours,rest) ← takeNumber 2 cs
  if rest = [] then return ⟨hours,0,0,0⟩
  let colons : Bool := rest.head? = some ':'
  let rest ← skip colons ':' rest
  let (minutes,rest) ← takeNumber 2 rest
  if rest = [] then return ⟨hours,minutes,0,0⟩
  let rest ← skip colons ':' rest
  let (seconds,rest) ← takeNumber 2 rest
  if rest = [] then return ⟨hours,minutes,seconds,0⟩
  if rest.head? = some '.' ∨ rest.head? = some ',' then
    let micros ← parseFraction rest.tail
    return ⟨hours,minutes,seconds,micros⟩
  else none

def marksZone (c : Char) : Bool := c = '+' || c = '-' || c = 'Z'

/-- The offset of a zone; it is less than a day. -/
def parseZone (zone : List Char) : Option (Option ℤ) :=
  match zone with
  | [] => some none
  | c :: rest =>
    if c = 'Z' then (if rest = [] then some (some 0) else none)
    else (parseClock rest).bind (fun o =>
      if o.total < day then some (some (if c = '-' then -(o.total : ℤ) else o.total)) else none)

def parseTime (cs : List Char) : Option (ℕ × Option ℤ) := do
  let time ← parseClock (cs.takeWhile (fun c => !marksZone c))
  let offset ← parseZone (cs.dropWhile (fun c => !marksZone c))
  if time.hours < 24 ∧ time.minutes < 60 ∧ time.seconds < 60 then return (time.total,offset) else none

def fromisoformat (text : String) : Option DateTime := do
  let cs := text.toList
  let separator ← findSeparator cs
  let ordinal ← parseDate (cs.take separator)
  let (time,offset) ← if cs.drop (separator + 1) = [] then some (0,none) else parseTime (cs.drop (separator + 1))
  return ⟨((ordinal : ℤ) - epochOrdinal) * day + time,offset⟩

/-- `text.replace("Z","+00:00")`. -/
def zuluToOffset (text : String) : String :=
  String.ofList (text.toList.flatMap (fun c => if c = 'Z' then ['+','0','0',':','0','0'] else [c]))

example : fromisoformat "1970-W01-5T01:00:00.5+01:00" = some ⟨86400 * 1000000 + 3600500000,some 3600000000⟩ := by decide +kernel
example : fromisoformat "19700102" = some ⟨86400 * 1000000,none⟩ := by decide +kernel
example : (fromisoformat (zuluToOffset "1970-01-01T00:00:00Z")).bind DateTime.aware = some 0 := by decide +kernel
example : fromisoformat "never" = none ∧ fromisoformat "2026-02-29" = none ∧ fromisoformat "2026-01-01T24:00" = none := by
  decide +kernel

/-! ## Numbers of one width -/

section
variable {w n : ℕ} {rest : List Char}

theorem number_concat {cs : List Char} {d : ℕ} (hd : d < 10) :
    number (cs ++ [Nat.digitChar d]) = (number cs).map (fun n => n * 10 + d) := by
  have hlast : digit 10 (Nat.digitChar d) = some ⟨d,hd⟩ := by
    have hall : ∀ d : Fin 10, digit 10 (Nat.digitChar d) = some d := by decide
    exact hall ⟨d,hd⟩
  have hread : digits 10 (cs ++ [Nat.digitChar d]) = (digits 10 cs).map (· ++ [⟨d,hd⟩]) := by
    simp only [digits, List.mapM_append, List.mapM_cons, hlast, List.mapM_nil]
    cases cs.mapM (digit 10) <;> rfl
  rw [number, hread, number, Option.map_map, Option.map_map]
  refine congrArg (fun f => Option.map f (digits 10 cs)) (funext fun ds => ?_)
  simp [ofDigits]

theorem number_pad (hw : 0 < w) (h : n < 10 ^ w) : number (pad w n).toList = some n := by
  induction w, hw using Nat.le_induction generalizing n with
  | base =>
    have h : n < 10 := by simpa using h
    have hone := @number_concat [] n h
    rw [toList_pad_one h, ← List.nil_append [Nat.digitChar n], hone]
    exact congrArg some (by simp [ofDigits])
  | succ w hw ih =>
    rw [toList_pad_succ hw, number_concat (Nat.mod_lt n (by decide)), ih (by rw [Nat.pow_succ] at h; omega)]
    exact congrArg some (Nat.div_add_mod' n 10)

theorem takeNumber_pad (hw : 0 < w) (h : n < 10 ^ w) : takeNumber w ((pad w n).toList ++ rest) = some (n,rest) := by
  have hlen := length_pad hw h
  rw [takeNumber, if_pos (by rw [List.length_append]; omega), List.take_left' hlen, List.drop_left' hlen, number_pad hw h]
  rfl

theorem isDigit_of_mem_pad {c : Char} (h : c ∈ (pad w n).toList) : c.isDigit = true := by
  rw [toList_pad, List.mem_append] at h
  rcases h with h | h
  · rw [List.eq_of_mem_replicate h]
    decide
  · exact isDigit_of_mem_toDigits h

theorem head_pad {c : Char} (hw : 0 < w) (h : n < 10 ^ w) (hc : c.isDigit = false) : ((pad w n).toList ++ rest).head? ≠ some c := by
  have hlen := length_pad hw h
  intro hhead
  cases hlist : (pad w n).toList with
  | nil =>
    rw [hlist] at hlen
    exact hw.ne hlen
  | cons a l =>
    rw [hlist] at hhead
    have ha := isDigit_of_mem_pad (w := w) (n := n) (c := a) (by rw [hlist]; exact List.mem_cons_self)
    rw [Option.some_inj.mp hhead, hc] at ha
    cases ha

end

/-! ## The date of a day -/

theorem isLeap_iff {y : ℕ} : isLeap y = true ↔ y % 4 = 0 ∧ (y % 100 ≠ 0 ∨ y % 400 = 0) := by
  simp [isLeap]

theorem yearStart_leapYear (y : ℕ) : yearStart (y + 1) = yearStart y + 365 + (if isLeap (y + 1) then 1 else 0) := by
  obtain ⟨e,c,q,r,rfl,hc,hq,hr⟩ : ∃ e c q r, y = 400 * e + 100 * c + 4 * q + r ∧ c ≤ 3 ∧ q ≤ 24 ∧ r ≤ 3 :=
    ⟨y / 400,y % 400 / 100,y % 100 / 4,y % 4,by omega,by omega,by omega,by omega⟩
  have h4 : (400 * e + 100 * c + 4 * q + r) / 4 = 100 * e + 25 * c + q := by omega
  have h100 : (400 * e + 100 * c + 4 * q + r) / 100 = 4 * e + c := by omega
  have h400 : (400 * e + 100 * c + 4 * q + r) / 400 = e := by omega
  have hleap : isLeap (400 * e + 100 * c + 4 * q + r + 1) = true ↔ r = 3 ∧ (q ≠ 24 ∨ c = 3) := by
    rw [isLeap_iff]
    omega
  unfold yearStart
  rw [h4, h100, h400]
  by_cases hlast : r = 3
  · subst hlast
    have h4' : (400 * e + 100 * c + 4 * q + 3 + 1) / 4 = 100 * e + 25 * c + q + 1 := by omega
    have h100' : (400 * e + 100 * c + 4 * q + 3 + 1) / 100 = 4 * e + c + (if q = 24 then 1 else 0) := by split <;> omega
    have h400' : (400 * e + 100 * c + 4 * q + 3 + 1) / 400 = e + (if q = 24 ∧ c = 3 then 1 else 0) := by split <;> omega
    rw [h4', h100', h400']
    simp only [hleap]
    clear h4 h100 h400 h4' h100' h400' hleap
    by_cases hq24 : q = 24 <;> by_cases hc3 : c = 3 <;> simp [hq24, hc3] <;> omega
  · have h4' : (400 * e + 100 * c + 4 * q + r + 1) / 4 = 100 * e + 25 * c + q := by omega
    have h100' : (400 * e + 100 * c + 4 * q + r + 1) / 100 = 4 * e + c := by omega
    have h400' : (400 * e + 100 * c + 4 * q + r + 1) / 400 = e := by omega
    rw [h4', h100', h400', if_neg (by rw [hleap]; omega)]
    omega

theorem daysBeforeYear_succ (y : ℕ) : daysBeforeYear (y + 1) = yearStart y := by
  unfold daysBeforeYear yearStart
  omega

/-- The months from March on, and the first two months of the next year. -/
theorem ymd2ord_ofMarch {y doy : ℕ} (hy : 0 < y) (hdoy : doy ≤ 365) (hleap : doy = 365 → isLeap (y + 1) = true) :
    let date := ofMarch y doy
    ymd2ord date.1 date.2.1 date.2.2 + 305 = yearStart y + doy ∧ 1 ≤ date.2.1 ∧ date.2.1 ≤ 12 ∧
      1 ≤ date.2.2 ∧ date.2.2 ≤ daysInMonth date.1 date.2.1 := by
  obtain ⟨x,rfl⟩ : ∃ x, y = x + 1 := ⟨y - 1,by omega⟩
  have hstart := yearStart_leapYear x
  have hx := daysBeforeYear_succ x
  have hy := daysBeforeYear_succ (x + 1)
  obtain ⟨mp,hmp⟩ : ∃ mp, mp = (5 * doy + 2) / 153 := ⟨_,rfl⟩
  have hle : mp ≤ 11 := by omega
  have hlast : doy ≤ 364 ∨ isLeap (x + 1 + 1) = true := by
    rcases Nat.lt_or_eq_of_le hdoy with hlt | heq
    · exact Or.inl (Nat.le_of_lt_succ hlt)
    · exact Or.inr (hleap heq)
  clear hleap
  unfold ofMarch ymd2ord
  rw [← hmp]
  cases hbit : isLeap (x + 1 + 1) <;> simp only [hbit, Bool.false_eq_true, or_false] at hlast <;>
    interval_cases mp <;> simp [daysBeforeMonth, daysInMonth, hx, hy, hbit] <;> omega

/-- The calendar's date of a day has the ordinal of the day. -/
theorem ordinalOf_civil {n : ℕ} (h : n < 2932897) :
    ordinalOf (civil n).1 (civil n).2.1 (civil n).2.2 = some (n + epochOrdinal) := by
  obtain ⟨y,doy,hn,hnext,hdoy,hcivil⟩ := civil_eq n
  have hyear := civil_year h
  have hy : 0 < y := by
    by_contra hzero
    rw [Nat.eq_zero_of_not_pos hzero, show yearStart 0 = 0 from rfl] at hn
    omega
  have hleap : doy = 365 → isLeap (y + 1) = true := by
    intro hlast
    by_contra hbit
    rw [yearStart_leapYear, if_neg hbit] at hnext
    omega
  have hdate := ymd2ord_ofMarch hy hdoy hleap
  rw [← hcivil] at hdate
  obtain ⟨hord,hm,hm',hd,hd'⟩ := hdate
  have hpos : 1 ≤ (civil n).1 := by
    rw [hcivil]
    unfold ofMarch
    dsimp only
    split <;> split <;> omega
  rw [ordinalOf, if_pos ⟨hpos,Nat.le_of_lt_succ hyear,hm,hm',hd,hd'⟩, epochOrdinal]
  exact congrArg some (by omega)

/-! ## What `isoformat` writes is read back -/

theorem not_marksZone_of_isDigit {c : Char} (h : c.isDigit = true) : marksZone c = false := by
  have hrange := isDigit_iff.mp h
  unfold marksZone
  simp only [Bool.or_eq_false_iff, decide_eq_false_iff_not]
  refine ⟨⟨?_,?_⟩,?_⟩ <;> rintro rfl <;> revert hrange <;> decide

theorem toList_dateOf (d : ℕ × ℕ × ℕ) :
    (dateOf d).toList = (pad 4 d.1).toList ++ '-' :: ((pad 2 d.2.1).toList ++ '-' :: (pad 2 d.2.2).toList) := by
  simp [dateOf, String.toList_append]

theorem parseDate_dateOf {d : ℕ × ℕ × ℕ} (h : Fits d) : parseDate (dateOf d).toList = ordinalOf d.1 d.2.1 d.2.2 := by
  obtain ⟨hy,hm,hd⟩ := h
  have hlast := @takeNumber_pad 2 d.2.2 [] (by decide) hd
  rw [List.append_nil] at hlast
  have hweek := @head_pad 2 d.2.1 ('-' :: (pad 2 d.2.2).toList) 'W' (by decide) hm (by decide)
  rw [toList_dateOf, parseDate, takeNumber_pad (by decide) hy]
  simp only [Option.bind_eq_bind, Option.bind_some, List.head?_cons, decide_true, skip, if_true, List.tail_cons, if_neg hweek,
    takeNumber_pad (show 0 < 2 by decide) hm, hlast]

/-- The digits of the fraction that `isoformat` writes. -/
def fractionText (t : Instant) : String := if t % second = 0 then "" else "." ++ pad 6 (t % second)

theorem toList_isoformat (t : Instant) : (isoformat t).toList =
    (dateText t).toList ++ 'T' :: ((timeText t).toList ++ (fractionText t).toList ++ ['+','0','0',':','0','0']) := by
  simp [isoformat, fractionText, String.toList_append]

theorem toList_timeText (t : Instant) : (timeText t).toList = (pad 2 (t % day / second / 3600)).toList ++
    ':' :: ((pad 2 (t % day / second / 60 % 60)).toList ++ ':' :: (pad 2 (t % day / second % 60)).toList) := by
  simp [timeText, String.toList_append]

theorem parseFraction_pad {n : ℕ} (h : n < 10 ^ 6) : parseFraction (pad 6 n).toList = some n := by
  have hlen := length_pad (by decide) h
  have hne : (pad 6 n).toList ≠ [] := by
    intro hnil
    rw [hnil] at hlen
    cases hlen
  rw [parseFraction, if_neg hne, List.take_of_length_le hlen.le, number_pad (by decide) h, hlen]
  exact congrArg some (Nat.mul_one n)

theorem parseClock_timeText (t : Instant) : parseClock ((timeText t).toList ++ (fractionText t).toList) =
    some ⟨t % day / second / 3600,t % day / second / 60 % 60,t % day / second % 60,t % second⟩ := by
  have hh : t % day / second / 3600 < 10 ^ 2 := by
    have hday : t % day < 86400 * second := Nat.mod_lt t (by decide)
    have hlt : t % day / second < 3600 * 24 := Nat.div_lt_of_lt_mul (by rwa [Nat.mul_comm] at hday)
    exact (Nat.div_lt_of_lt_mul hlt).trans (by decide)
  have hm : t % day / second / 60 % 60 < 10 ^ 2 := (Nat.mod_lt _ (by decide)).trans (by decide)
  have hs : t % day / second % 60 < 10 ^ 2 := (Nat.mod_lt _ (by decide)).trans (by decide)
  have htail : ∀ n < 10 ^ 2, takeNumber 2 ((pad 2 n).toList ++ (fractionText t).toList) = some (n,(fractionText t).toList) :=
    fun n hn => takeNumber_pad (by decide) hn
  rw [toList_timeText, parseClock, List.append_assoc, List.cons_append, List.append_assoc, List.cons_append]
  simp only [takeNumber_pad (show 0 < 2 by decide) hh, takeNumber_pad (show 0 < 2 by decide) hm, htail _ hs,
    Option.bind_eq_bind, Option.bind_some, List.head?_cons, decide_true, skip, if_true, List.tail_cons,
    if_neg (List.cons_ne_nil _ _)]
  by_cases hwhole : t % second = 0
  · rw [fractionText, if_pos hwhole, hwhole]
    rfl
  · have htext : (fractionText t).toList = '.' :: (pad 6 (t % second)).toList := by
      rw [fractionText, if_neg hwhole, String.toList_append]
      rfl
    rw [htext, if_neg (List.cons_ne_nil _ _), if_pos (Or.inl List.head?_cons), List.tail_cons,
      parseFraction_pad (Nat.mod_lt t (by decide) : t % second < 10 ^ 6)]
    rfl

/-- The parts of the time of day make up the time of day. -/
theorem total_timeOfDay (t : Instant) :
    (ClockTime.mk (t % day / second / 3600) (t % day / second / 60 % 60) (t % day / second % 60) (t % second)).total = t % day := by
  have hsecond : t % second = t % day % second := (Nat.mod_mod_of_dvd t ⟨86400,rfl⟩).symm
  have hparts : ∀ n : ℕ, n / 3600 * 3600 + n / 60 % 60 * 60 + n % 60 = n := by
    intro n
    omega
  rw [ClockTime.total]
  dsimp only
  rw [hparts, hsecond]
  exact Nat.div_add_mod' _ _

theorem not_marksZone_of_mem_time {t : Instant} {c : Char} (h : c ∈ (timeText t).toList ++ (fractionText t).toList) :
    (!marksZone c) = true := by
  have hcolon : marksZone ':' = false := by decide
  have hpoint : marksZone '.' = false := by decide
  have hpad : ∀ w n, c ∈ (pad w n).toList → marksZone c = false := fun w n hc => not_marksZone_of_isDigit (isDigit_of_mem_pad hc)
  have hmark : marksZone c = false := by
    rw [List.mem_append, toList_timeText] at h
    simp only [List.mem_append, List.mem_cons] at h
    rcases h with (h | rfl | h | rfl | h) | h
    · exact hpad _ _ h
    · exact hcolon
    · exact hpad _ _ h
    · exact hcolon
    · exact hpad _ _ h
    · unfold fractionText at h
      split at h
      · exact absurd h List.not_mem_nil
      · rw [String.toList_append] at h
        rcases List.mem_cons.mp h with rfl | h
        · exact hpoint
        · exact hpad _ _ h
  rw [hmark]
  rfl

theorem parseTime_timeText (t : Instant) {zone : List Char} {offset : Option ℤ} (hhead : ∀ c ∈ zone.head?, marksZone c = true)
    (hzone : parseZone zone = some offset) :
    parseTime ((timeText t).toList ++ (fractionText t).toList ++ zone) = some (t % day,offset) := by
  have hfront : ∀ c ∈ (timeText t).toList ++ (fractionText t).toList, (!marksZone c) = true := fun _ => not_marksZone_of_mem_time
  have htake := @List.takeWhile_append_of_pos _ (fun c => !marksZone c) _ zone hfront
  have hdrop := @List.dropWhile_append_of_pos _ (fun c => !marksZone c) _ zone hfront
  have hstop : zone.takeWhile (fun c => !marksZone c) = [] ∧ zone.dropWhile (fun c => !marksZone c) = zone := by
    cases zone with
    | nil => exact ⟨rfl,rfl⟩
    | cons c rest =>
      have hc : ¬ (!marksZone c) = true := by simp [hhead c rfl]
      exact ⟨List.takeWhile_cons_of_neg hc,List.dropWhile_cons_of_neg hc⟩
  have hhours : t % day / second / 3600 < 24 := by
    have hday : t % day < 86400 * second := Nat.mod_lt t (by decide)
    have hlt : t % day / second < 3600 * 24 := Nat.div_lt_of_lt_mul (by rwa [Nat.mul_comm] at hday)
    exact Nat.div_lt_of_lt_mul hlt
  rw [parseTime, htake, hdrop, hstop.1, hstop.2, List.append_nil, parseClock_timeText, hzone]
  simp only [Option.bind_eq_bind, Option.bind_some]
  rw [if_pos ⟨hhours,Nat.mod_lt _ (by decide),Nat.mod_lt _ (by decide)⟩, total_timeOfDay]
  rfl

/-- The date ends before the separator. -/
theorem findSeparator_dateOf {d : ℕ × ℕ × ℕ} (h : Fits d) (sep : Char) (rest : List Char) :
    findSeparator ((dateOf d).toList ++ sep :: rest) = some 10 := by
  obtain ⟨hy,hm,hd⟩ := h
  have hylen := length_pad (show 0 < 4 by decide) hy
  have hlen := length_dateOf ⟨hy,hm,hd⟩
  have hfifth : ((dateOf d).toList ++ sep :: rest)[4]? = some '-' := by
    rw [toList_dateOf, List.append_assoc, List.getElem?_append_right hylen.le, hylen]
    rfl
  have hsixth : ((dateOf d).toList ++ sep :: rest)[5]? ≠ some 'W' := by
    rw [toList_dateOf, List.append_assoc, List.getElem?_append_right (by omega), hylen, List.cons_append, List.append_assoc]
    rw [List.getElem?_cons_succ, ← List.head?_eq_getElem?]
    exact head_pad (by decide) hm (by decide)
  have hlong : ((dateOf d).toList ++ sep :: rest).length = rest.length + 11 := by
    rw [List.length_append, hlen, List.length_cons]
    omega
  rw [findSeparator, if_neg (by omega), if_neg (by omega), if_pos hfifth, if_neg hsixth]

theorem day_of_lt {t : Instant} (h : t < endOfTime) : t / day < 2932897 := by
  rw [show endOfTime = 2932897 * day from rfl] at h
  exact Nat.div_lt_of_lt_mul (by rwa [Nat.mul_comm])

theorem wall_of_parts (t : Instant) : (((t / day + epochOrdinal : ℕ) : ℤ) - epochOrdinal) * day + ((t % day : ℕ) : ℤ) = t := by
  rw [Nat.cast_add, add_sub_cancel_right, ← Nat.cast_mul, ← Nat.cast_add, Nat.div_add_mod']

/-- A text is read by its date and by its time. -/
theorem fromisoformat_of_parts {text : String} {date time : List Char} {sep : Char} {ordinal : ℕ} {r : ℕ × Option ℤ}
    (htext : text.toList = date ++ sep :: time) (hsep : findSeparator text.toList = some date.length)
    (hdate : parseDate date = some ordinal) (hne : time ≠ []) (htime : parseTime time = some r) :
    fromisoformat text = some ⟨((ordinal : ℤ) - epochOrdinal) * day + r.1,r.2⟩ := by
  have hdrop : text.toList.drop (date.length + 1) = time := by
    rw [htext, ← List.drop_drop, List.drop_left' rfl]
    rfl
  have htake : text.toList.take date.length = date := by rw [htext, List.take_left' rfl]
  rw [fromisoformat]
  simp only [hsep, hdrop, htake, hdate, htime, if_neg hne, Option.bind_eq_bind, Option.bind_some]
  rfl

/-- A date and a time are read back, with any separator and in any zone. -/
theorem fromisoformat_wall {t : Instant} {text : String} {sep : Char} {zone : List Char} {offset : Option ℤ} (h : t < endOfTime)
    (htext : text.toList = (dateText t).toList ++ sep :: ((timeText t).toList ++ (fractionText t).toList ++ zone))
    (hhead : ∀ c ∈ zone.head?, marksZone c = true) (hzone : parseZone zone = some offset) :
    fromisoformat text = some ⟨t,offset⟩ := by
  have hfits := fits_civil h
  have hlen := length_dateText h
  have hdate : parseDate (dateText t).toList = some (t / day + epochOrdinal) := by
    rw [dateText_eq, parseDate_dateOf hfits, ordinalOf_civil (day_of_lt h)]
  have hsep : findSeparator text.toList = some (dateText t).toList.length := by
    rw [hlen, htext, dateText_eq, findSeparator_dateOf hfits]
  have hne : (timeText t).toList ++ (fractionText t).toList ++ zone ≠ [] := by
    rw [toList_timeText]
    simp
  rw [fromisoformat_of_parts htext hsep hdate hne (parseTime_timeText t hhead hzone), wall_of_parts]

/-- `fromisoformat` reads the texts of `isoformat` back. -/
theorem fromisoformat_isoformat {t : Instant} (h : t < endOfTime) : fromisoformat (isoformat t) = some ⟨t,some 0⟩ :=
  fromisoformat_wall h (toList_isoformat t) (by simp [marksZone]) (by decide)

theorem isoformat_inj {t u : Instant} (ht : t < endOfTime) (hu : u < endOfTime) (h : isoformat t = isoformat u) : t = u := by
  have hread := fromisoformat_isoformat ht
  rw [h, fromisoformat_isoformat hu] at hread
  exact Int.ofNat_inj.mp (congrArg DateTime.wall (Option.some_inj.mp hread)).symm

theorem isoformat_ne_empty (t : Instant) : isoformat t ≠ "" := by
  intro h
  have hlist := congrArg String.toList h
  rw [toList_isoformat] at hlist
  simp at hlist

theorem zuluToOffset_of_no_zulu {text : String} (h : 'Z' ∉ text.toList) : zuluToOffset text = text := by
  have hsame : ∀ l : List Char, 'Z' ∉ l → l.flatMap (fun c => if c = 'Z' then ['+','0','0',':','0','0'] else [c]) = l := by
    intro l hl
    induction l with
    | nil => rfl
    | cons c l ih =>
      obtain ⟨hc,hl⟩ := List.ne_and_not_mem_of_not_mem_cons hl
      rw [List.flatMap_cons, if_neg hc.symm, ih hl]
      rfl
  rw [zuluToOffset, hsame _ h, String.ofList_toList]

theorem not_mem_pad {c : Char} (hdigit : c.isDigit = false) (w n : ℕ) : c ∉ (pad w n).toList := by
  intro hmem
  rw [isDigit_of_mem_pad hmem] at hdigit
  cases hdigit

theorem not_mem_dateText {c : Char} (hdigit : c.isDigit = false) (hhyphen : c ≠ '-') (t : Instant) : c ∉ (dateText t).toList := by
  rw [dateText_eq, toList_dateOf]
  simp [not_mem_pad hdigit, hhyphen]

theorem not_mem_timeText {c : Char} (hdigit : c.isDigit = false) (hcolon : c ≠ ':') (t : Instant) : c ∉ (timeText t).toList := by
  rw [toList_timeText]
  simp [not_mem_pad hdigit, hcolon]

theorem no_zulu_time (t : Instant) : 'Z' ∉ (timeText t).toList ++ (fractionText t).toList :=
  fun hc => absurd (not_marksZone_of_mem_time hc) (by decide)

/-- Nothing in what `isoformat` writes is a `Z`. -/
theorem zuluToOffset_isoformat (t : Instant) : zuluToOffset (isoformat t) = isoformat t := by
  refine zuluToOffset_of_no_zulu (fun hc => ?_)
  rw [toList_isoformat] at hc
  rcases List.mem_append.mp hc with hc | hc
  · exact not_mem_dateText (by decide) (by decide) t hc
  · rcases List.mem_cons.mp hc with hc | hc
    · exact absurd hc (by decide)
    · rcases List.mem_append.mp hc with hc | hc
      · exact no_zulu_time t hc
      · exact absurd hc (by decide)

/-! ## Texts to the second -/

/-- Texts with one separator and one ending order as their seconds do. -/
theorem wallText_lt {t u : ℕ} (h : t / second < u / second) (hu : u < endOfTime) (sep : Char) (zone : List Char) :
    (dateText t).toList ++ sep :: ((timeText t).toList ++ zone) < (dateText u).toList ++ sep :: ((timeText u).toList ++ zone) := by
  have htu : t < u := by
    by_contra hle
    exact absurd h (Nat.not_lt.mpr (Nat.div_le_div_right (Nat.not_lt.mp hle)))
  apply append_lt_append (by rw [length_dateText (htu.trans hu), length_dateText hu])
  rcases lt_or_eq_of_le (Nat.div_le_div_right htu.le : t / day ≤ u / day) with hday | hday
  · exact Or.inl (dateText_lt hday (htu.trans hu) hu)
  · refine Or.inr ⟨by rw [dateText_eq, dateText_eq, hday],List.cons_lt_cons_iff.mpr (Or.inr ⟨rfl,?_⟩)⟩
    exact append_lt_append (by rw [length_timeText, length_timeText]) (Or.inl (timeText_lt (time_lt_of_second_lt h hday)))

end Foundation.Clock
