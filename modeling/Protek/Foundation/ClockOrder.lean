import Protek.Foundation.Clock
import Mathlib.Algebra.Ring.Nat
import Mathlib.Order.Monotone.Basic

/-! # Later instants have later texts

Up to the end of the calendar `isoformat` keeps the order of instants, so two texts
compare as the instants they stand for.
-/
namespace Foundation.Clock

/-! ## The calendar -/

/-- The days before a year that begins in March. -/
def yearStart (y : ℕ) : ℕ := 365 * y + y / 4 - y / 100 + y / 400

theorem yearStart_succ (y : ℕ) : yearStart y + 365 ≤ yearStart (y + 1) := by
  unfold yearStart
  omega

theorem yearStart_mono : Monotone yearStart :=
  monotone_nat_of_le_succ (fun y ↦ (Nat.le_add_right _ _).trans (yearStart_succ y))

theorem yearStart_parts {c q y : ℕ} (hc : c ≤ 3) (hq : q ≤ 24) (hy : y ≤ 3) (era : ℕ) :
    yearStart (100 * c + 4 * q + y + era * 400) = 146097 * era + 36524 * c + 1461 * q + 365 * y := by
  have h4 : (100 * c + 4 * q + y + era * 400) / 4 = 25 * c + q + 100 * era := by omega
  have h100 : (100 * c + 4 * q + y + era * 400) / 100 = c + 4 * era := by omega
  have h400 : (100 * c + 4 * q + y + era * 400) / 400 = era := by omega
  rw [yearStart, h4, h100, h400]
  omega

theorem yearStart_leap {c q era : ℕ} (hc : c ≤ 3) (hq : q ≤ 24) (hcent : q = 24 → c = 3) :
    yearStart (100 * c + 4 * q + 3 + era * 400 + 1) = 146097 * era + 36524 * c + 1461 * q + 1461 := by
  have h4 : (100 * c + 4 * q + 3 + era * 400 + 1) / 4 = 25 * c + q + 1 + 100 * era := by omega
  have h100 : (100 * c + 4 * q + 3 + era * 400 + 1) / 100 = c + 4 * era + (if q = 24 then 1 else 0) := by
    split <;> omega
  have h400 : (100 * c + 4 * q + 3 + era * 400 + 1) / 400 = era + (if q = 24 then 1 else 0) := by
    split <;> omega
  rw [yearStart, h4, h100, h400]
  split <;> omega

/-- The date of a day of such a year. -/
def ofMarch (y doy : ℕ) : ℕ × ℕ × ℕ :=
  let mp := (5 * doy + 2) / 153
  let m := if mp < 10 then mp + 3 else mp - 9
  (if m ≤ 2 then y + 1 else y,m,doy - (153 * mp + 2) / 5 + 1)

/-- Centuries, cycles of four years, years and days of a day in its era. -/
theorem era_parts {doe : ℕ} (h : doe < 146097) : ∃ c q y r, doe = 36524 * c + 1461 * q + 365 * y + r ∧
    c ≤ 3 ∧ q ≤ 24 ∧ y ≤ 3 ∧ r ≤ 365 ∧ (r = 365 → y = 3 ∧ (q = 24 → c = 3)) := by
  obtain ⟨c,hc⟩ : ∃ c, c = min (doe / 36524) 3 := ⟨_,rfl⟩
  obtain ⟨q,hq⟩ : ∃ q, q = (doe - 36524 * c) / 1461 := ⟨_,rfl⟩
  obtain ⟨y,hy⟩ : ∃ y, y = min ((doe - 36524 * c - 1461 * q) / 365) 3 := ⟨_,rfl⟩
  refine ⟨c,q,y,doe - 36524 * c - 1461 * q - 365 * y,?_,?_,?_,?_,?_,?_⟩ <;> omega

theorem era_year {c q y r : ℕ} (hc : c ≤ 3) (hq : q ≤ 24) (hy : y ≤ 3) (hr : r ≤ 365)
    (hleap : r = 365 → y = 3 ∧ (q = 24 → c = 3)) {doe : ℕ} (h : doe = 36524 * c + 1461 * q + 365 * y + r) :
    (doe - doe / 1460 + doe / 36524 - doe / 146096) / 365 = 100 * c + 4 * q + y := by
  have hcycle : doe / 1460 = 25 * c + q ∨ (doe / 1460 = 25 * c + q + 1 ∧ 1460 ≤ 24 * c + q + 365 * y + r) := by omega
  have hlast : (doe / 36524 = c ∧ doe / 146096 = 0 ∧ (c = 3 → q = 24 → y = 3 → r ≠ 365)) ∨
      (doe / 36524 = c + 1 ∧ doe / 146096 = 1 ∧ r = 365) := by omega
  rcases hcycle with hcycle | ⟨hcycle,_⟩ <;> rcases hlast with ⟨hcent,hera,_⟩ | ⟨hcent,hera,_⟩ <;>
    rw [hcycle, hcent, hera] <;> omega

theorem era_day {c q y r doe : ℕ} (hq : q ≤ 24) (hy : y ≤ 3)
    (h : doe = 36524 * c + 1461 * q + 365 * y + r) :
    doe - (365 * (100 * c + 4 * q + y) + (100 * c + 4 * q + y) / 4 - (100 * c + 4 * q + y) / 100) = r := by
  have h4 : (100 * c + 4 * q + y) / 4 = 25 * c + q := by omega
  have h100 : (100 * c + 4 * q + y) / 100 = c := by omega
  rw [h4, h100]
  omega

theorem civil_eq (days : ℕ) : ∃ y doy, days + 719468 = yearStart y + doy ∧ days + 719468 < yearStart (y + 1) ∧
    doy ≤ 365 ∧ civil days = ofMarch y doy := by
  obtain ⟨c,q,y,r,hdoe,hc,hq,hy,hr,hleap⟩ := era_parts (Nat.mod_lt (days + 719468) (by decide : 0 < 146097))
  have hyoe := era_year hc hq hy hr hleap hdoe
  have hz := Nat.div_add_mod (days + 719468) 146097
  obtain ⟨era,hera⟩ : ∃ era, era = (days + 719468) / 146097 := ⟨_,rfl⟩
  rw [← hera] at hz
  refine ⟨100 * c + 4 * q + y + era * 400,r,?_,?_,hr,?_⟩
  · rw [yearStart_parts hc hq hy, ← hz]
    omega
  · by_cases h365 : r = 365
    · obtain ⟨rfl,hcent⟩ := hleap h365
      rw [yearStart_leap hc hq hcent]
      omega
    · have hstart := yearStart_parts hc hq hy era
      have hnext := yearStart_succ (100 * c + 4 * q + y + era * 400)
      omega
  · have hdoy := era_day hq hy hdoe
    unfold civil
    simp only [hyoe]
    rw [hdoy, ← hera]
    rfl

/-- The order of dates: year, month, day. -/
def DateLt (a b : ℕ × ℕ × ℕ) : Prop :=
  a.1 < b.1 ∨ (a.1 = b.1 ∧ (a.2.1 < b.2.1 ∨ (a.2.1 = b.2.1 ∧ a.2.2 < b.2.2)))

theorem dateLt_trichotomy (a b : ℕ × ℕ × ℕ) : DateLt a b ∨ a = b ∨ DateLt b a := by
  obtain ⟨y,m,d⟩ := a
  obtain ⟨y',m',d'⟩ := b
  simp only [DateLt, Prod.mk.injEq]
  omega

theorem DateLt.asymm {a b : ℕ × ℕ × ℕ} (h : DateLt a b) : ¬ DateLt b a := by
  simp only [DateLt] at *
  omega

/-- A later day has the later date. -/
theorem civil_lt {a b : ℕ} (h : a < b) : DateLt (civil a) (civil b) := by
  obtain ⟨y,r,ha,-,hr,hcivil⟩ := civil_eq a
  obtain ⟨y',r',hb,hnext,hr',hcivil'⟩ := civil_eq b
  have hyear : y ≤ y' := by
    by_contra hlt
    have : yearStart (y' + 1) ≤ yearStart y := yearStart_mono (not_le.mp hlt)
    omega
  have hday : y = y' → r < r' := by
    rintro rfl
    omega
  rw [hcivil, hcivil']
  unfold DateLt ofMarch
  dsimp only
  clear hcivil hcivil' ha hb hnext h
  split <;> split <;> split <;> split <;> omega

theorem civil_bounds (n : ℕ) : (civil n).2.1 < 13 ∧ (civil n).2.2 < 32 := by
  obtain ⟨y,r,-,-,hr,hcivil⟩ := civil_eq n
  rw [hcivil]
  unfold ofMarch
  dsimp only
  split <;> constructor <;> omega

theorem civil_year {n : ℕ} (h : n < 2932897) : (civil n).1 < 10000 := by
  obtain ⟨y,r,hn,-,hr,hcivil⟩ := civil_eq n
  have hy : y < 10000 := by
    by_contra hlt
    have := yearStart_mono (not_lt.mp hlt)
    rw [show yearStart 10000 = 3652425 from rfl] at this
    omega
  have hlast : y = 9999 → r < 306 := by
    rintro rfl
    rw [show yearStart 9999 = 3652059 from rfl] at hn
    omega
  rw [hcivil]
  unfold ofMarch
  dsimp only
  split <;> split <;> omega

/-- On one day the later second has the later time. -/
theorem time_lt_of_second_lt {t u : ℕ} (h : t / second < u / second) (hday : t / day = u / day) :
    t % day / second < u % day / second := by
  have hdays : ∀ v : ℕ, v / day = v / second / 86400 := fun v => (Nat.div_div_eq_div_mul v second 86400).symm
  have htimes : ∀ v : ℕ, v % day / second = v / second % 86400 := fun v => Nat.mod_mul_right_div_self v second 86400
  rw [hdays, hdays] at hday
  rw [htimes, htimes]
  omega

/-! ## Texts of one width -/

theorem append_lt_append {a b x y : List Char} (hlen : a.length = b.length) (h : a < b ∨ (a = b ∧ x < y)) :
    a ++ x < b ++ y := by
  rcases h with h | ⟨rfl,h⟩
  · induction a generalizing b with
    | nil =>
      rw [List.length_eq_zero_iff.mp hlen.symm] at h
      exact absurd h (List.lt_irrefl [])
    | cons c a ih => cases b with
      | nil => simp at hlen
      | cons d b =>
        rw [List.cons_append, List.cons_append, List.cons_lt_cons_iff]
        rcases List.cons_lt_cons_iff.mp h with h | ⟨heq,hrest⟩
        · exact Or.inl h
        · exact Or.inr ⟨heq,ih (Nat.succ.inj hlen) hrest⟩
  · exact List.append_left_lt h

theorem digitChar_lt {m n : ℕ} (h : m < n) (hn : n < 10) : Nat.digitChar m < Nat.digitChar n := by
  have hall : ∀ n : Fin 10, ∀ m : Fin 10, m < n → Nat.digitChar m < Nat.digitChar n := by decide
  exact hall ⟨n,hn⟩ ⟨m,h.trans hn⟩ h

theorem toList_pad (w n : ℕ) :
    (pad w n).toList = List.replicate (w - (Nat.toDigits 10 n).length) '0' ++ Nat.toDigits 10 n := by
  rw [pad, String.toList_ofList]

theorem toList_pad_one {n : ℕ} (h : n < 10) : (pad 1 n).toList = [Nat.digitChar n] := by
  rw [toList_pad, Nat.toDigits_of_lt_base h]
  rfl

/-- The last digit comes off the end. -/
theorem toList_pad_succ {w : ℕ} (hw : 0 < w) (n : ℕ) :
    (pad (w + 1) n).toList = (pad w (n / 10)).toList ++ [Nat.digitChar (n % 10)] := by
  rw [toList_pad, toList_pad]
  by_cases h : n < 10
  · obtain ⟨w,rfl⟩ : ∃ v, w = v + 1 := ⟨w - 1,by omega⟩
    rw [Nat.toDigits_of_lt_base h, Nat.div_eq_of_lt h, Nat.mod_eq_of_lt h, Nat.toDigits_zero]
    simp [List.replicate_succ']
  · rw [Nat.toDigits_of_base_le (by decide) (not_lt.mp h), List.length_append, ← List.append_assoc]
    simp

theorem length_pad {w n : ℕ} (hw : 0 < w) (h : n < 10 ^ w) : (pad w n).toList.length = w := by
  induction w, hw using Nat.le_induction generalizing n with
  | base => rw [toList_pad_one (by simpa using h)]; rfl
  | succ w hw ih =>
    rw [toList_pad_succ hw, List.length_append, ih (by rw [Nat.pow_succ] at h; omega)]
    rfl

theorem pad_lt {w m n : ℕ} (hw : 0 < w) (h : m < n) (hn : n < 10 ^ w) : (pad w m).toList < (pad w n).toList := by
  induction w, hw using Nat.le_induction generalizing m n with
  | base =>
    have hn : n < 10 := by simpa using hn
    rw [toList_pad_one hn, toList_pad_one (h.trans hn)]
    exact List.cons_lt_cons_iff.mpr (Or.inl (digitChar_lt h hn))
  | succ w hw ih =>
    have hn' : n / 10 < 10 ^ w := by rw [Nat.pow_succ] at hn; omega
    have hm' : m / 10 < 10 ^ w := by omega
    rw [toList_pad_succ hw, toList_pad_succ hw]
    apply append_lt_append (by rw [length_pad hw hm', length_pad hw hn'])
    rcases lt_or_eq_of_le (Nat.div_le_div_right h.le : m / 10 ≤ n / 10) with hlt | heq
    · exact Or.inl (ih hlt hn')
    · exact Or.inr ⟨congrArg (fun k ↦ (pad w k).toList) heq,
        List.cons_lt_cons_iff.mpr (Or.inl (digitChar_lt (by omega) (Nat.mod_lt _ (by decide))))⟩

/-! ## Instants -/

def dateOf (d : ℕ × ℕ × ℕ) : String := pad 4 d.1 ++ "-" ++ pad 2 d.2.1 ++ "-" ++ pad 2 d.2.2

theorem dateText_eq (t : ℕ) : dateText t = dateOf (civil (t / day)) := rfl

/-- The parts of a date fit the width they are written in. -/
def Fits (d : ℕ × ℕ × ℕ) : Prop := d.1 < 10000 ∧ d.2.1 < 100 ∧ d.2.2 < 100

theorem fits_civil {t : ℕ} (h : t < endOfTime) : Fits (civil (t / day)) := by
  obtain ⟨hm,hd⟩ := civil_bounds (t / day)
  have hy := civil_year (n := t / day) (by
    rw [show endOfTime = 2932897 * day from rfl] at h
    exact Nat.div_lt_of_lt_mul (by rwa [Nat.mul_comm]))
  exact ⟨hy,hm.trans (by decide),hd.trans (by decide)⟩

theorem length_dateOf {d : ℕ × ℕ × ℕ} (h : Fits d) : (dateOf d).toList.length = 10 := by
  obtain ⟨hy,hm,hd⟩ := h
  rw [dateOf]
  simp only [String.toList_append, List.length_append]
  rw [length_pad (by decide) (by simpa using hy), length_pad (by decide) (by simpa using hm),
    length_pad (by decide) (by simpa using hd)]
  rfl

theorem dateOf_lt {a b : ℕ × ℕ × ℕ} (h : DateLt a b) (ha : Fits a) (hb : Fits b) : (dateOf a).toList < (dateOf b).toList := by
  obtain ⟨hy,hm,hd⟩ := ha
  obtain ⟨hy',hm',hd'⟩ := hb
  rw [dateOf, dateOf]
  simp only [String.toList_append, List.append_assoc]
  apply append_lt_append (by rw [length_pad (by decide) (by simpa using hy), length_pad (by decide) (by simpa using hy')])
  rcases h with hlt | ⟨hyear,hrest⟩
  · exact Or.inl (pad_lt (by decide) hlt (by simpa using hy'))
  · refine Or.inr ⟨by rw [hyear],List.append_left_lt ?_⟩
    apply append_lt_append (by rw [length_pad (by decide) (by simpa using hm), length_pad (by decide) (by simpa using hm')])
    rcases hrest with hlt | ⟨hmonth,hlt⟩
    · exact Or.inl (pad_lt (by decide) hlt (by simpa using hm'))
    · exact Or.inr ⟨by rw [hmonth],List.append_left_lt (pad_lt (by decide) hlt (by simpa using hd'))⟩

theorem length_dateText {t : ℕ} (h : t < endOfTime) : (dateText t).toList.length = 10 := by
  rw [dateText_eq]
  exact length_dateOf (fits_civil h)

theorem length_timeText (t : ℕ) : (timeText t).toList.length = 8 := by
  have hs : t % day / second < 86400 := Nat.div_lt_of_lt_mul (Nat.mod_lt t (by decide : 0 < 86400 * second))
  unfold timeText
  generalize t % day / second = a at *
  simp only [String.toList_append, List.length_append]
  rw [length_pad (by decide) (by omega), length_pad (by decide) (by omega), length_pad (by decide) (by omega)]
  rfl

theorem dateText_lt {t u : ℕ} (h : t / day < u / day) (ht : t < endOfTime) (hu : u < endOfTime) :
    (dateText t).toList < (dateText u).toList := by
  rw [dateText_eq, dateText_eq]
  exact dateOf_lt (civil_lt h) (fits_civil ht) (fits_civil hu)

theorem timeText_lt {t u : ℕ} (h : t % day / second < u % day / second) :
    (timeText t).toList < (timeText u).toList := by
  have hs : u % day / second < 86400 := Nat.div_lt_of_lt_mul (Nat.mod_lt u (by decide : 0 < 86400 * second))
  unfold timeText
  generalize t % day / second = a at *
  generalize u % day / second = b at *
  simp only [String.toList_append, List.append_assoc]
  apply append_lt_append (by rw [length_pad (by decide) (by omega), length_pad (by decide) (by omega)])
  rcases lt_or_eq_of_le (Nat.div_le_div_right h.le : a / 3600 ≤ b / 3600) with hlt | hhour
  · exact Or.inl (pad_lt (by decide) hlt (by omega))
  · refine Or.inr ⟨by rw [hhour],List.append_left_lt ?_⟩
    apply append_lt_append (by rw [length_pad (by decide) (by omega), length_pad (by decide) (by omega)])
    rcases lt_or_eq_of_le (show a / 60 % 60 ≤ b / 60 % 60 by omega) with hlt | hmin
    · exact Or.inl (pad_lt (by decide) hlt (by omega))
    · exact Or.inr ⟨by rw [hmin],List.append_left_lt (pad_lt (by decide) (by omega) (by omega))⟩

/-- Of two fractions of one second the later one has the later text; none at all sorts first. -/
theorem fraction_lt {m n : ℕ} (h : m < n) (hn : n < second) :
    ((if m = 0 then "" else "." ++ pad 6 m) ++ "+00:00").toList <
      ((if n = 0 then "" else "." ++ pad 6 n) ++ "+00:00").toList := by
  rw [if_neg (by omega : n ≠ 0)]
  by_cases hm : m = 0
  · rw [if_pos hm]
    simp only [String.toList_append]
    exact List.cons_lt_cons_iff.mpr (Or.inl (by decide))
  · rw [if_neg hm]
    simp only [String.toList_append, List.append_assoc]
    apply List.append_left_lt
    have hw : second = 10 ^ 6 := rfl
    apply append_lt_append (by rw [length_pad (by decide) (by omega), length_pad (by decide) (by omega)])
    exact Or.inl (pad_lt (by decide) h (by omega))

theorem isoformat_lt {t u : ℕ} (h : t < u) (hu : u < endOfTime) : isoformat t < isoformat u := by
  change (isoformat t).toList < (isoformat u).toList
  have hdays : t / day ≤ u / day := Nat.div_le_div_right h.le
  unfold isoformat
  simp only [String.toList_append, List.append_assoc]
  apply append_lt_append (by rw [length_dateText (h.trans hu), length_dateText hu])
  rcases lt_or_eq_of_le hdays with hlt | hday
  · exact Or.inl (dateText_lt hlt (h.trans hu) hu)
  · have hdate : (dateText t).toList = (dateText u).toList := by rw [dateText, dateText, hday]
    refine Or.inr ⟨hdate,List.append_left_lt ?_⟩
    apply append_lt_append (by rw [length_timeText, length_timeText])
    have hmod : t % day < u % day := by
      have ht := Nat.div_add_mod t day
      have hu := Nat.div_add_mod u day
      rw [hday] at ht
      omega
    rcases lt_or_eq_of_le (Nat.div_le_div_right hmod.le : t % day / second ≤ u % day / second) with hlt | hsec
    · exact Or.inl (timeText_lt hlt)
    · have hmicro : t % second < u % second := by
        have ht := Nat.div_add_mod (t % day) second
        have hu := Nat.div_add_mod (u % day) second
        rw [Nat.mod_mod_of_dvd _ (⟨86400,rfl⟩ : second ∣ day)] at ht hu
        rw [hsec] at ht
        omega
      have htime : (timeText t).toList = (timeText u).toList := by rw [timeText, timeText, hsec]
      have hfraction := fraction_lt hmicro (Nat.mod_lt u (by decide))
      simp only [String.toList_append] at hfraction
      exact Or.inr ⟨htime,hfraction⟩

/-- Instants and their texts are in the same order. -/
theorem isoformat_lt_iff {t u : ℕ} (ht : t < endOfTime) (hu : u < endOfTime) :
    isoformat t < isoformat u ↔ t < u := by
  constructor
  · intro h
    by_contra hle
    rcases lt_or_eq_of_le (not_lt.mp hle) with hlt | rfl
    · exact String.lt_asymm h (isoformat_lt hlt ht)
    · exact String.lt_irrefl _ h
  · intro h
    exact isoformat_lt h hu

end Foundation.Clock
