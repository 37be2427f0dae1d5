import Mathlib.Data.List.Basic
import Mathlib.Data.List.DropRight
import Mathlib.Data.List.Infix
import Mathlib.Tactic.Ring

/-! # Python's `str` methods

Strings are Lean strings, worked on through their character lists. What depends
on the Unicode tables beyond ASCII (case mapping) is a parameter fixed on ASCII
text only; the white space of `str.strip` is listed in full. `orElse v d` is
`v or d` for a `v` that may be `None` or empty, `dropEnd s n` is `s[:-n]`, and
`dropStart s n` is `s[n:]`.
-/
namespace Foundation.PyText

def isSpace (c : Char) : Bool :=
  let n := c.toNat
  (9 ≤ n && n ≤ 13) || (28 ≤ n && n ≤ 32) || n == 0x85 || n == 0xA0 || n == 0x1680 ||
    (0x2000 ≤ n && n ≤ 0x200A) || n == 0x2028 || n == 0x2029 || n == 0x202F || n == 0x205F || n == 0x3000

def strip (s : String) : String :=
  String.ofList ((s.toList.dropWhile isSpace).reverse.dropWhile isSpace).reverse

theorem strip_strip (s : String) : strip (strip s) = strip s := by
  have htrim : ∀ l : List Char, ((l.dropWhile isSpace).rdropWhile isSpace).dropWhile isSpace =
      (l.dropWhile isSpace).rdropWhile isSpace := by
    intro l
    refine List.dropWhile_eq_self_iff.mpr (fun hpos => ?_)
    have hpre := List.rdropWhile_prefix isSpace (l := l.dropWhile isSpace)
    have hne : 0 < (l.dropWhile isSpace).length := hpos.trans_le hpre.length_le
    rw [hpre.getElem hpos]
    exact List.dropWhile_get_zero_not isSpace l hne
  have hback : ((s.toList.dropWhile isSpace).rdropWhile isSpace).rdropWhile isSpace =
      (s.toList.dropWhile isSpace).rdropWhile isSpace := List.rdropWhile_idempotent isSpace _
  change String.ofList ((((strip s).toList.dropWhile isSpace)).rdropWhile isSpace) = strip s
  have hlist : (strip s).toList = (s.toList.dropWhile isSpace).rdropWhile isSpace := String.toList_ofList
  rw [hlist, htrim, hback]
  rfl

theorem toList_strip (s : String) : (strip s).toList = (s.toList.dropWhile isSpace).rdropWhile isSpace := String.toList_ofList

theorem mem_of_mem_strip {s : String} {c : Char} (h : c ∈ (strip s).toList) : c ∈ s.toList := by
  rw [toList_strip] at h
  exact (List.dropWhile_sublist _).subset ((List.rdropWhile_prefix isSpace _).subset h)

theorem mem_strip_of_not_space {s : String} {c : Char} (h : c ∈ s.toList) (hc : isSpace c = false) : c ∈ (strip s).toList := by
  have hdrop : ∀ l : List Char, c ∈ l → c ∈ l.dropWhile isSpace := by
    intro l hl
    induction l with
    | nil => exact absurd hl List.not_mem_nil
    | cons d l ih =>
      rw [List.dropWhile_cons]
      split
      · rename_i hd
        rcases List.mem_cons.mp hl with rfl | hl
        · rw [hc] at hd
          cases hd
        · exact ih hl
      · exact hl
  rw [toList_strip, List.rdropWhile, List.mem_reverse]
  exact hdrop _ (List.mem_reverse.mpr (hdrop _ h))

theorem head?_strip {s : String} {c : Char} (h : (strip s).toList.head? = some c) : isSpace c = false := by
  obtain ⟨back,hback⟩ := List.rdropWhile_prefix isSpace (s.toList.dropWhile isSpace)
  rw [toList_strip] at h
  have hhead : (s.toList.dropWhile isSpace).head? = some c := by
    rw [← hback, List.head?_append, h]
    rfl
  simpa [hhead] using List.head?_dropWhile_not isSpace s.toList

theorem getLast?_strip {s : String} {c : Char} (h : (strip s).toList.getLast? = some c) : isSpace c = false := by
  rw [toList_strip] at h
  have hne : (s.toList.dropWhile isSpace).rdropWhile isSpace ≠ [] := by
    intro hnil
    rw [hnil] at h
    cases h
  rw [List.getLast?_eq_some_getLast hne] at h
  cases h
  simpa using List.rdropWhile_last_not isSpace _ hne

/-- White space at the end makes no difference. -/
theorem strip_append_space {a w : List Char} (h : ∀ c ∈ w, isSpace c = true) :
    strip (String.ofList (a ++ w)) = strip (String.ofList a) := by
  have hback : ∀ l : List Char, (l ++ w).rdropWhile isSpace = l.rdropWhile isSpace := by
    intro l
    rw [List.rdropWhile, List.reverse_append, List.dropWhile_append]
    have hw : w.reverse.dropWhile isSpace = [] := by
      rw [List.dropWhile_eq_nil_iff]
      exact fun c hc => h c (List.mem_reverse.mp hc)
    rw [hw]
    rfl
  apply String.toList_inj.mp
  rw [toList_strip, toList_strip, String.toList_ofList, String.toList_ofList, List.dropWhile_append]
  split
  · rename_i hempty
    have ha : a.dropWhile isSpace = [] := by simpa using hempty
    have hw : w.dropWhile isSpace = [] := List.dropWhile_eq_nil_iff.mpr h
    rw [ha, hw]
  · exact hback _

/-- The white space goes, the characters that begin the text stay. -/
theorem toList_strip_cons {s : String} {a b : Char} {rest : List Char} (hs : s.toList = a :: b :: rest)
    (ha : isSpace a = false) (hb : isSpace b = false) : ∃ rest', (strip s).toList = a :: b :: rest' := by
  have hback : ∃ l, (a :: b :: rest).reverse.dropWhile isSpace = l ++ [b,a] := by
    rw [List.reverse_cons, List.reverse_cons, List.append_assoc, List.dropWhile_append]
    split
    · exact ⟨[],by simp [hb]⟩
    · exact ⟨_,rfl⟩
  obtain ⟨l,hl⟩ := hback
  refine ⟨l.reverse,?_⟩
  rw [strip, String.toList_ofList, hs, List.dropWhile_cons_of_neg (by simp [ha]), hl]
  simp


def orElse (v : Option String) (d : String) : String :=
  match v with
  | some s => if s = "" then d else s
  | none => d

theorem orElse_some {s : String} (h : s ≠ "") (d : String) : orElse (some s) d = s := by simp [orElse, h]

def startsWith (s p : String) : Bool := p.toList.isPrefixOf s.toList

def endsWith (s p : String) : Bool := p.toList.isSuffixOf s.toList

def contains (s p : String) : Bool := s.toList.tails.any (fun t => p.toList.isPrefixOf t)

def dropEnd (s : String) (n : ℕ) : String := String.ofList (s.toList.take (s.toList.length - n))

def dropStart (s : String) (n : ℕ) : String := String.ofList (s.toList.drop n)

def replaceChar (s : String) (a b : Char) : String := String.ofList (s.toList.map (fun c => if c = a then b else c))

/-- `s.split(sep)` for a separator of one character. -/
def split (s : String) (sep : Char) : List String := (s.toList.splitOn sep).map String.ofList

/-- `s.split(sep, n)`: no more than `n` splits, the last part takes what is left. -/
def splitMax (sep : Char) : ℕ → List Char → List (List Char)
  | 0, cs => [cs]
  | n + 1, cs =>
    match cs.dropWhile (fun c => c ≠ sep) with
    | [] => [cs]
    | _ :: rest => cs.takeWhile (fun c => c ≠ sep) :: splitMax sep n rest

theorem splitMax_append {sep : Char} {a : List Char} (h : sep ∉ a) (n : ℕ) (b : List Char) :
    splitMax sep (n + 1) (a ++ sep :: b) = a :: splitMax sep n b := by
  have hall : ∀ c ∈ a, decide (c ≠ sep) = true := fun c hc => decide_eq_true (fun he => h (he ▸ hc))
  have hdrop : (a ++ sep :: b).dropWhile (fun c => c ≠ sep) = sep :: b := by
    rw [List.dropWhile_append_of_pos hall, List.dropWhile_cons_of_neg (by simp)]
  have htake : (a ++ sep :: b).takeWhile (fun c => c ≠ sep) = a := by
    rw [List.takeWhile_append_of_pos hall, List.takeWhile_cons_of_neg (by simp), List.append_nil]
  rw [splitMax, hdrop, htake]

/-- `s.rstrip(c)`. -/
def rstripChar (s : String) (c : Char) : String := String.ofList (s.toList.rdropWhile (fun d => d = c))

theorem startsWith_append (p s : String) : startsWith (p ++ s) p = true := by
  simp [startsWith, String.toList_append]

theorem startsWith_of_toList {t p : String} {a b : List Char} (h : t.toList = a ++ b) (hp : p.toList = a) : startsWith t p = true := by
  rw [startsWith, h, hp]
  exact List.isPrefixOf_iff_prefix.mpr (List.prefix_append a b)

theorem contains_of_toList {t p : String} {a b : List Char} (h : t.toList = a ++ (p.toList ++ b)) : contains t p = true := by
  refine List.any_eq_true.mpr ⟨p.toList ++ b,(List.mem_tails _ _).mpr ⟨a,h.symm⟩,?_⟩
  exact List.isPrefixOf_iff_prefix.mpr (List.prefix_append _ _)

/-- The case mappings of `str.lower` and `str.upper`, fixed on ASCII text. -/
structure CaseMap where
  lower : String → String
  upper : String → String
  lower_ascii : ∀ s : String, (∀ c ∈ s.toList, c.toNat < 128) → (lower s).toList = s.toList.map Char.toLower
  upper_ascii : ∀ s : String, (∀ c ∈ s.toList, c.toNat < 128) → (upper s).toList = s.toList.map Char.toUpper

/-- The mapping that leaves every character beyond ASCII alone. -/
def CaseMap.ascii : CaseMap where
  lower s := String.ofList (s.toList.map Char.toLower)
  upper s := String.ofList (s.toList.map Char.toUpper)
  lower_ascii _ _ := String.toList_ofList
  upper_ascii _ _ := String.toList_ofList

/-- `lower` of SQLite, which knows ASCII only. -/
def sqlLower (s : String) : String := String.ofList (s.toList.map Char.toLower)

/-! ## Digits -/

def digit (b : ℕ) (c : Char) : Option (Fin b) :=
  let n := c.toNat
  let v := if 48 ≤ n ∧ n ≤ 57 then n - 48
    else if 97 ≤ n ∧ n ≤ 102 then n - 87
    else if 65 ≤ n ∧ n ≤ 70 then n - 55
    else b
  if h : v < b then some ⟨v,h⟩ else none

def digits (b : ℕ) (cs : List Char) : Option (List (Fin b)) := cs.mapM (digit b)

def ofDigits (b : ℕ) (ds : List (Fin b)) : ℕ := ds.foldl (fun n d => n * b + d) 0

theorem ofDigits_lt {b : ℕ} (ds : List (Fin b)) : ofDigits b ds < b ^ ds.length := by
  have key : ∀ n, ds.foldl (fun n d => n * b + d) n < (n + 1) * b ^ ds.length := by
    induction ds with
    | nil => simp
    | cons d rest ih =>
      intro n
      have hd : n * b + d + 1 ≤ (n + 1) * b := by
        have := d.isLt
        rw [Nat.add_mul, Nat.one_mul]
        omega
      calc (d :: rest).foldl (fun n d => n * b + d) n
          = rest.foldl (fun n d => n * b + d) (n * b + d) := rfl
        _ < (n * b + d + 1) * b ^ rest.length := ih _
        _ ≤ (n + 1) * b * b ^ rest.length := Nat.mul_le_mul_right _ hd
        _ = (n + 1) * b ^ (d :: rest).length := by rw [List.length_cons, pow_succ]; ring
  simpa [ofDigits] using key 0

theorem ofDigits_lt_of_length {b n : ℕ} {ds : List (Fin b)} (h : ds.length = n) : ofDigits b ds < b ^ n :=
  h ▸ ofDigits_lt ds

/-- The Unicode classes behind `str.isdigit`, `str.isalpha`, `\d` and `int`, fixed on ASCII. -/
structure CharTable where
  decimal : Char → Option (Fin 10)
  isDigit : Char → Bool
  isAlpha : Char → Bool
  decimal_ascii : ∀ c, c.toNat < 128 → decimal c = digit 10 c
  isDigit_ascii : ∀ c, c.toNat < 128 → isDigit c = c.isDigit
  isAlpha_ascii : ∀ c, c.toNat < 128 → isAlpha c = c.isAlpha

def CharTable.ascii : CharTable where
  decimal := digit 10
  isDigit := Char.isDigit
  isAlpha := Char.isAlpha
  decimal_ascii _ _ := rfl
  isDigit_ascii _ _ := rfl
  isAlpha_ascii _ _ := rfl

/-- The digits that `int` reads: groups of decimals with single underscores between them. -/
def intDigits (T : CharTable) (cs : List Char) : Option ℕ :=
  ((cs.splitOn '_').mapM (fun g => if g = [] then none else g.mapM T.decimal)).map (fun gs => ofDigits 10 gs.flatten)

/-- `int(s)`, `none` where Python raises ValueError. -/
def pyInt (T : CharTable) (s : String) : Option ℤ :=
  match (strip s).toList with
  | '-' :: cs => (intDigits T cs).map (fun n => -(n : ℤ))
  | '+' :: cs => (intDigits T cs).map (fun n => (n : ℤ))
  | cs => (intDigits T cs).map (fun n => (n : ℤ))

example : pyInt CharTable.ascii " 1_0\n" = some 10 := by decide

theorem strip_eq_self {s : String} (h : ∀ c ∈ s.toList, isSpace c = false) : strip s = s := by
  have hdrop : ∀ l : List Char, (∀ c ∈ l, isSpace c = false) → l.dropWhile isSpace = l := by
    intro l hl
    cases l with
    | nil => rfl
    | cons a rest => rw [List.dropWhile_cons_of_neg (by simp [hl a])]
  rw [strip, hdrop _ h, hdrop _ (fun c hc => h c (List.mem_reverse.mp hc)), List.reverse_reverse, String.ofList_toList]

theorem isDigit_iff {c : Char} : c.isDigit = true ↔ 48 ≤ c.toNat ∧ c.toNat ≤ 57 := by
  simp only [Char.isDigit, Bool.and_eq_true, decide_eq_true_eq]
  exact Iff.rfl

theorem isSpace_of_isDigit {c : Char} (h : c.isDigit = true) : isSpace c = false := by
  obtain ⟨h1,h2⟩ := isDigit_iff.mp h
  unfold isSpace
  simp
  omega

theorem isDigit_of_mem_toDigits {n : ℕ} {c : Char} (h : c ∈ Nat.toDigits 10 n) : c.isDigit = true :=
  Nat.isDigit_of_mem_toDigits (by decide) (by decide) h

theorem digit_of_isDigit {c : Char} (h : c.isDigit = true) : ∃ d : Fin 10, digit 10 c = some d ∧ (d : ℕ) = c.toNat - 48 := by
  have hr := isDigit_iff.mp h
  refine ⟨⟨c.toNat - 48,by omega⟩,?_,rfl⟩
  unfold digit
  simp only [hr, and_self, if_true]
  rw [dif_pos (by omega)]

/-- `int` reads back the digits of a count. -/
theorem intDigits_toDigits (T : CharTable) (n : ℕ) : intDigits T (Nat.toDigits 10 n) = some n := by
  have hdigit : ∀ c ∈ Nat.toDigits 10 n, c.isDigit = true := fun _ => isDigit_of_mem_toDigits
  have hread : ∀ cs : List Char, (∀ c ∈ cs, c.isDigit = true) → ∃ ds, cs.mapM T.decimal = some ds ∧
      ∀ a, ds.foldl (fun (m : ℕ) (d : Fin 10) => m * 10 + d) a = Nat.ofDigitChars 10 cs a := by
    intro cs hcs
    induction cs with
    | nil => exact ⟨[],rfl,fun _ => rfl⟩
    | cons c rest ih =>
      obtain ⟨ds,hds,hval⟩ := ih (fun d hd => hcs d (List.mem_cons_of_mem _ hd))
      have hc := hcs c List.mem_cons_self
      obtain ⟨d,hd,hdval⟩ := digit_of_isDigit hc
      have hascii : T.decimal c = some d := by
        rw [T.decimal_ascii, hd]
        have := (isDigit_iff.mp hc).2
        omega
      refine ⟨d :: ds,by simp [hascii, hds],?_⟩
      intro a
      rw [List.foldl_cons, hval, hdval, Nat.mul_comm]
      rfl
  obtain ⟨ds,hds,hval⟩ := hread _ hdigit
  have hno : '_' ∉ Nat.toDigits 10 n := fun hmem => absurd (hdigit _ hmem) (by decide)
  have hne : Nat.toDigits 10 n ≠ [] := List.ne_nil_of_length_pos Nat.length_toDigits_pos
  unfold intDigits
  rw [List.splitOn_eq_singleton hno]
  simp only [List.mapM_cons, List.mapM_nil, if_neg hne, hds]
  have hn := hval 0
  rw [Nat.ofDigitChars_ten_toDigits] at hn
  simpa [ofDigits, ← List.map_eq_flatMap, List.foldl_map] using hn

theorem pyInt_toString (T : CharTable) (n : ℤ) : pyInt T (toString n) = some n := by
  cases n with
  | ofNat m =>
    have hlist : (toString (Int.ofNat m)).toList = Nat.toDigits 10 m := Nat.toList_repr
    have hstrip : strip (toString (Int.ofNat m)) = toString (Int.ofNat m) :=
      strip_eq_self (by rw [hlist]; exact fun c hc => isSpace_of_isDigit (isDigit_of_mem_toDigits hc))
    unfold pyInt
    rw [hstrip, hlist]
    split
    · rename_i cs hcs
      exact absurd (isDigit_of_mem_toDigits (n := m) (c := '-') (by rw [hcs]; simp)) (by decide)
    · rename_i cs hcs
      exact absurd (isDigit_of_mem_toDigits (n := m) (c := '+') (by rw [hcs]; simp)) (by decide)
    · rw [intDigits_toDigits]
      rfl
  | negSucc m =>
    have hlist : (toString (Int.negSucc m)).toList = '-' :: Nat.toDigits 10 (m + 1) := by
      have : toString (Int.negSucc m) = "-" ++ (m + 1).repr := rfl
      rw [this, String.toList_append, Nat.toList_repr]
      rfl
    have hstrip : strip (toString (Int.negSucc m)) = toString (Int.negSucc m) := by
      refine strip_eq_self ?_
      rw [hlist]
      intro c hc
      rcases List.mem_cons.mp hc with rfl | hc
      · decide
      · exact isSpace_of_isDigit (isDigit_of_mem_toDigits hc)
    unfold pyInt
    rw [hstrip, hlist]
    simp only [intDigits_toDigits]
    rfl

/-- `str(n)` tells two counts apart. -/
theorem toString_injective : Function.Injective (fun n : ℕ => toString n) := by
  intro m n h
  have hdigits : ∀ k : ℕ, (toString k).toList = Nat.toDigits 10 k := fun _ => Nat.toList_repr
  have hlist : Nat.toDigits 10 m = Nat.toDigits 10 n := by rw [← hdigits, ← hdigits, congrArg String.toList h]
  rw [← @Nat.ofDigitChars_ten_toDigits m, ← @Nat.ofDigitChars_ten_toDigits n, hlist]

def unsigned : List Char → List Char
  | '-' :: cs => cs
  | '+' :: cs => cs
  | cs => cs

/-- A number with or without a fraction; one side of the point may be empty. -/
def isMantissa (T : CharTable) (cs : List Char) : Bool :=
  match cs.splitOn '.' with
  | [n] => (intDigits T n).isSome
  | [n,f] => (n = [] || (intDigits T n).isSome) && (f = [] || (intDigits T f).isSome) && (n ≠ [] || f ≠ [])
  | _ => false

/-- Does `float(s)` return, rather than raise ValueError? -/
def pyFloatOk (T : CharTable) (s : String) : Bool :=
  let cs := (unsigned (strip s).toList).map Char.toLower
  if String.ofList cs ∈ ["inf","infinity","nan"] then true
  else match cs.splitOn 'e' with
    | [m] => isMantissa T m
    | [m,e] => isMantissa T m && (intDigits T (unsigned e)).isSome
    | _ => false

example : ["60"," +1_0.5e-3","NaN",".5"].all (pyFloatOk CharTable.ascii) = true := by decide
example : ["","1__0","1.2.3","1e","60s"].any (pyFloatOk CharTable.ascii) = false := by decide

end Foundation.PyText
