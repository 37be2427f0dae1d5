import Protek.Foundation.ClockOrder

/-! # Compact times

`compactStamp` is `strftime('%Y%m%dT%H%M%SZ')` of an instant in UTC: fields of one width
each, so later seconds have later texts.
-/
namespace Foundation.Clock

def compactDate (d : ℕ × ℕ × ℕ) : String := pad 4 d.1 ++ pad 2 d.2.1 ++ pad 2 d.2.2

def compactTime (t : Instant) : String :=
  let s := t % day / second
  pad 2 (s / 3600) ++ pad 2 (s / 60 % 60) ++ pad 2 (s % 60)

def compactStamp (t : Instant) : String := compactDate (civil (t / day)) ++ "T" ++ compactTime t ++ "Z"

example : compactStamp 1792067696000001 = "20261015T123456Z" := by decide

theorem length_compactDate {d : ℕ × ℕ × ℕ} (h : Fits d) : (compactDate d).toList.length = 8 := by
  obtain ⟨hy,hm,hd⟩ := h
  rw [compactDate]
  simp only [String.toList_append, List.length_append]
  rw [length_pad (by decide) (by simpa using hy), length_pad (by decide) (by simpa using hm),
    length_pad (by decide) (by simpa using hd)]

theorem compactDate_lt {a b : ℕ × ℕ × ℕ} (h : DateLt a b) (ha : Fits a) (hb : Fits b) :
    (compactDate a).toList < (compactDate b).toList := by
  obtain ⟨hy,hm,hd⟩ := ha
  obtain ⟨hy',hm',hd'⟩ := hb
  rw [compactDate, compactDate]
  simp only [String.toList_append, List.append_assoc]
  apply append_lt_append (by rw [length_pad (by decide) (by simpa using hy), length_pad (by decide) (by simpa using hy')])
  rcases h with hlt | ⟨hyear,hrest⟩
  · exact Or.inl (pad_lt (by decide) hlt (by simpa using hy'))
  · refine Or.inr ⟨by rw [hyear],?_⟩
    apply append_lt_append (by rw [length_pad (by decide) (by simpa using hm), length_pad (by decide) (by simpa using hm')])
    rcases hrest with hlt | ⟨hmonth,hlt⟩
    · exact Or.inl (pad_lt (by decide) hlt (by simpa using hm'))
    · exact Or.inr ⟨by rw [hmonth],pad_lt (by decide) hlt (by simpa using hd')⟩

theorem compactTime_lt {t u : ℕ} (h : t % day / second < u % day / second) : (compactTime t).toList < (compactTime u).toList := by
  have hs : u % day / second < 86400 := Nat.div_lt_of_lt_mul (Nat.mod_lt u (by decide : 0 < 86400 * second))
  unfold compactTime
  generalize t % day / second = a at *
  generalize u % day / second = b at *
  simp only [String.toList_append, List.append_assoc]
  apply append_lt_append (by rw [length_pad (by decide) (by omega), length_pad (by decide) (by omega)])
  rcases lt_or_eq_of_le (Nat.div_le_div_right h.le : a / 3600 ≤ b / 3600) with hlt | hhour
  · exact Or.inl (pad_lt (by decide) hlt (by omega))
  · refine Or.inr ⟨by rw [hhour],?_⟩
    apply append_lt_append (by rw [length_pad (by decide) (by omega), length_pad (by decide) (by omega)])
    rcases lt_or_eq_of_le (show a / 60 % 60 ≤ b / 60 % 60 by omega) with hlt | hmin
    · exact Or.inl (pad_lt (by decide) hlt (by omega))
    · exact Or.inr ⟨by rw [hmin],pad_lt (by decide) (by omega) (by omega)⟩

theorem length_compactTime (t : ℕ) : (compactTime t).toList.length = 6 := by
  have hs : t % day / second < 86400 := Nat.div_lt_of_lt_mul (Nat.mod_lt t (by decide : 0 < 86400 * second))
  unfold compactTime
  generalize t % day / second = a at *
  simp only [String.toList_append, List.length_append]
  rw [length_pad (by decide) (by omega), length_pad (by decide) (by omega), length_pad (by decide) (by omega)]

theorem toList_compactStamp (t : Instant) :
    (compactStamp t).toList = (compactDate (civil (t / day))).toList ++ 'T' :: ((compactTime t).toList ++ ['Z']) := by
  simp [compactStamp, String.toList_append]

theorem compactStamp_lt {t u : ℕ} (h : t / second < u / second) (hu : u < endOfTime) : (compactStamp t).toList < (compactStamp u).toList := by
  have htu : t < u := by
    by_contra hle
    exact absurd h (Nat.not_lt.mpr (Nat.div_le_div_right (Nat.not_lt.mp hle)))
  have ht := fits_civil (htu.trans hu)
  rw [toList_compactStamp, toList_compactStamp]
  apply append_lt_append (by rw [length_compactDate ht, length_compactDate (fits_civil hu)])
  rcases lt_or_eq_of_le (Nat.div_le_div_right htu.le : t / day ≤ u / day) with hday | hday
  · exact Or.inl (compactDate_lt (civil_lt hday) ht (fits_civil hu))
  · refine Or.inr ⟨by rw [hday],List.cons_lt_cons_iff.mpr (Or.inr ⟨rfl,?_⟩)⟩
    exact append_lt_append (by rw [length_compactTime, length_compactTime]) (Or.inl (compactTime_lt (time_lt_of_second_lt h hday)))

theorem compactStamp_congr {t u : ℕ} (h : t / second = u / second) : compactStamp t = compactStamp u := by
  have hday : t / day = u / day := by
    rw [show day = second * 86400 from rfl, ← Nat.div_div_eq_div_mul, ← Nat.div_div_eq_div_mul, h]
  have htime : t % day / second = u % day / second := by
    rw [show day = second * 86400 from rfl, Nat.mod_mul_right_div_self, Nat.mod_mul_right_div_self, h]
  unfold compactStamp compactTime
  rw [hday, htime]

theorem length_compactStamp {t : ℕ} (ht : t < endOfTime) : (compactStamp t).toList.length = 16 := by
  rw [toList_compactStamp, List.length_append, List.length_cons, List.length_append, length_compactDate (fits_civil ht),
    length_compactTime]
  rfl

end Foundation.Clock
