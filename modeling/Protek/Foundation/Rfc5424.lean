import Protek.Foundation.FromIso

/-! # Syslog messages

`parse` reads a message by the grammar of RFC 5424. In a parameter's value a quote, a
backslash and a closing bracket are written behind a backslash, and nothing else is.
-/
namespace Foundation.Rfc5424
open Foundation.Clock

/-! ## Messages -/

/-- A field that is not given is written as a hyphen. -/
structure Header where
  prival : ℕ
  version : ℕ
  timestamp : Option String
  hostname : Option String
  appName : Option String
  procid : Option String
  msgid : Option String
  deriving DecidableEq

structure Element where
  id : String
  params : List (String × String)
  deriving DecidableEq

structure Message where
  header : Header
  elements : List Element
  msg : Option String
  deriving DecidableEq

/-! ## The header -/

/-- A character of `PRINTUSASCII`. -/
def printable (c : Char) : Bool := 33 ≤ c.toNat && c.toNat ≤ 126

/-- `NILVALUE / 1*nPRINTUSASCII` -/
def field (n : ℕ) (cs : List Char) : Option (Option String) :=
  if cs = ['-'] then some none
  else if cs ≠ [] ∧ cs.length ≤ n ∧ cs.all printable then some (some (String.ofList cs)) else none

/-- A number of so many digits at the most. -/
def shortNumber (n : ℕ) (cs : List Char) : Option ℕ := if cs ≠ [] ∧ cs.length ≤ n then number cs else none

/-- `PRI VERSION` -/
def priVersion (cs : List Char) : Option (ℕ × ℕ) :=
  match cs with
  | '<' :: rest => do
    let prival ← shortNumber 3 (rest.takeWhile (· ≠ '>'))
    let version ← shortNumber 3 (rest.dropWhile (· ≠ '>')).tail
    if prival ≤ 191 ∧ '>' ∈ rest ∧ (rest.dropWhile (· ≠ '>')).tail.head? ≠ some '0' then return (prival,version) else none
  | _ => none

def after (c : Char) (cs : List Char) : Option (List Char) := if cs.head? = some c then some cs.tail else none

def fullDate (cs : List Char) : Option (List Char) := do
  let (year,rest) ← takeNumber 4 cs
  let (month,rest) ← takeNumber 2 (← after '-' rest)
  let (dayOfMonth,rest) ← takeNumber 2 (← after '-' rest)
  if 1 ≤ month ∧ month ≤ 12 ∧ 1 ≤ dayOfMonth ∧ dayOfMonth ≤ daysInMonth year month then return rest else none

def hourMinute (cs : List Char) : Option (List Char) := do
  let (hours,rest) ← takeNumber 2 cs
  let (minutes,rest) ← takeNumber 2 (← after ':' rest)
  if hours < 24 ∧ minutes < 60 then return rest else none

/-- `TIME-OFFSET` -/
def timeOffset (cs : List Char) : Bool :=
  match cs with
  | ['Z'] => true
  | c :: rest => (c = '+' || c = '-') && hourMinute rest = some []
  | [] => false

/-- The end of a time, from its seconds on. -/
def secondsOffset (cs : List Char) : Bool :=
  match takeNumber 2 cs with
  | none => false
  | some (seconds,rest) => seconds < 60 &&
    if rest.head? = some '.' then
      let fraction := rest.tail.takeWhile Char.isDigit
      1 ≤ fraction.length && fraction.length ≤ 6 && timeOffset (rest.tail.drop fraction.length)
    else timeOffset rest

/-- `FULL-DATE "T" FULL-TIME` -/
def dateTime (cs : List Char) : Bool :=
  match ((fullDate cs).bind (after 'T')).bind (fun rest => (hourMinute rest).bind (after ':')) with
  | some rest => secondsOffset rest
  | none => false

def timestamp (cs : List Char) : Option (Option String) :=
  if cs = ['-'] then some none else if dateTime cs then some (some (String.ofList cs)) else none

/-- A text up to its next space, and what follows that. -/
def word (cs : List Char) : Option (List Char × List Char) :=
  if ' ' ∈ cs then some (cs.takeWhile (· ≠ ' '),(cs.dropWhile (· ≠ ' ')).tail) else none

def words : ℕ → List Char → Option (List (List Char) × List Char)
  | 0, cs => some ([],cs)
  | n + 1, cs => do
    let (w,rest) ← word cs
    let (ws,rest) ← words n rest
    return (w :: ws,rest)

def readHeader (ws : List (List Char)) : Option Header :=
  match ws with
  | [pri,time,host,app,proc,msg] => do
    let (prival,version) ← priVersion pri
    let time ← timestamp time
    let host ← field 255 host
    let app ← field 48 app
    let proc ← field 128 proc
    let msg ← field 32 msg
    return ⟨prival,version,time,host,app,proc,msg⟩
  | _ => none

/-! ## Structured data -/

def nameChar (c : Char) : Bool := printable c && c ≠ '=' && c ≠ ']' && c ≠ '\x22'

def sdName (cs : List Char) : Option (String × List Char) :=
  let name := cs.takeWhile nameChar
  if name ≠ [] ∧ name.length ≤ 32 then some (String.ofList name,cs.dropWhile nameChar) else none

/-- The characters that are written behind a backslash. -/
def escaped (c : Char) : Bool := c = '\x22' || c = '\x5c' || c = ']'

/-- A value up to its closing quote, and what follows; `true` is the state behind a backslash. -/
def paramValue : Bool → List Char → Option (List Char × List Char)
  | _, [] => none
  | true, c :: rest => if escaped c then (paramValue false rest).map (fun r => (c :: r.1,r.2)) else none
  | false, c :: rest =>
    if c = '\x22' then some ([],rest)
    else if c = '\x5c' then paramValue true rest
    else if c = ']' then none
    else (paramValue false rest).map (fun r => (c :: r.1,r.2))

def sdParam (cs : List Char) : Option ((String × String) × List Char) := do
  let (name,rest) ← sdName cs
  let (value,rest) ← paramValue false (← after '\x22' (← after '=' rest))
  return ((name,String.ofList value),rest)

/-- The parameters up to the bracket that closes their element; the number bounds the recursion. -/
def sdParams : ℕ → List Char → Option (List (String × String) × List Char)
  | 0, cs => (after ']' cs).map (fun rest => ([],rest))
  | n + 1, cs =>
    if cs.head? = some ']' then some ([],cs.tail)
    else do
      let (p,rest) ← sdParam (← after ' ' cs)
      let (ps,rest) ← sdParams n rest
      return (p :: ps,rest)

def sdElement (cs : List Char) : Option (Element × List Char) := do
  let (id,rest) ← sdName (← after '[' cs)
  let (params,rest) ← sdParams rest.length rest
  return (⟨id,params⟩,rest)

/-- One element after the other; the number bounds the recursion. -/
def sdElements : ℕ → List Char → Option (List Element × List Char)
  | 0, _ => none
  | n + 1, cs => do
    let (e,rest) ← sdElement cs
    if rest.head? = some '[' then
      let (es,rest) ← sdElements n rest
      return (e :: es,rest)
    else return ([e],rest)

def structuredData (cs : List Char) : Option (List Element × List Char) :=
  if cs.head? = some '-' then some ([],cs.tail) else sdElements cs.length cs

def message (cs : List Char) : Option (Option String) :=
  if cs = [] then some none else (after ' ' cs).map (fun rest => some (String.ofList rest))

def parse (line : String) : Option Message := do
  let (ws,rest) ← words 6 line.toList
  let header ← readHeader ws
  let (elements,rest) ← structuredData rest
  let msg ← message rest
  return ⟨header,elements,msg⟩

example : (parse "<134>1 2026-10-15T12:34:56.000001Z host protek 77 a.b [x@1 k=\x22a\x5c]b\x22] m").map (fun m => (m.elements,m.msg)) =
    some ([⟨"x@1",[("k","a]b")]⟩],some "m") := by decide +kernel
example : parse "<192>1 - - - - - -" = none ∧ parse "<134>1 - - - - - [x@1 k=\x22a]b\x22] m" = none := by decide +kernel

/-! ## Reading a header back -/

section
variable {n : ℕ} {cs w rest : List Char}

theorem word_append (h : ' ' ∉ w) : word (w ++ ' ' :: rest) = some (w,rest) := by
  have hall : ∀ c ∈ w, decide (c ≠ ' ') = true := fun c hc => decide_eq_true (fun he => h (he ▸ hc))
  rw [word, if_pos (List.mem_append_right w List.mem_cons_self), List.takeWhile_append_of_pos hall, List.dropWhile_append_of_pos hall,
    List.takeWhile_cons_of_neg (by decide), List.dropWhile_cons_of_neg (by decide), List.append_nil, List.tail_cons]

theorem words_append {ws : List (List Char)} (h : ∀ w ∈ ws, ' ' ∉ w) :
    words ws.length (ws.flatMap (fun w => w ++ [' ']) ++ rest) = some (ws,rest) := by
  induction ws with
  | nil => rfl
  | cons w ws ih =>
    obtain ⟨hw,hws⟩ := List.forall_mem_cons.mp h
    rw [List.flatMap_cons, List.append_assoc, List.append_assoc, List.singleton_append, List.length_cons, words, word_append hw]
    simp only [Option.bind_eq_bind, Option.bind_some, ih hws]
    rfl

theorem parse_words {line : String} {ws : List (List Char)} (hws : ws.length = 6) (hspace : ∀ w ∈ ws, ' ' ∉ w)
    (hline : line.toList = ws.flatMap (fun w => w ++ [' ']) ++ rest) :
    parse line = (readHeader ws).bind (fun header => (structuredData rest).bind (fun r =>
      (message r.2).map (fun msg => ⟨header,r.1,msg⟩))) := by
  have hwords := @words_append rest ws hspace
  rw [hws, ← hline] at hwords
  rw [parse, hwords]
  simp only [Option.bind_eq_bind, Option.bind_some]
  cases readHeader ws with
  | none => rfl
  | some header =>
    dsimp only [Option.bind_some]
    cases structuredData rest with
    | none => rfl
    | some r =>
      dsimp only [Option.bind_some]
      cases message r.2 <;> rfl

/-- Between good fields the priority and the last field decide whether a header is read. -/
theorem isSome_readHeader {pri time host app proc msg : List Char} (htime : (timestamp time).isSome = true)
    (hhost : (field 255 host).isSome = true) (happ : (field 48 app).isSome = true) (hproc : (field 128 proc).isSome = true) :
    (readHeader [pri,time,host,app,proc,msg]).isSome = true ↔ (priVersion pri).isSome = true ∧ (field 32 msg).isSome = true := by
  obtain ⟨time',htime⟩ := Option.isSome_iff_exists.mp htime
  obtain ⟨host',hhost⟩ := Option.isSome_iff_exists.mp hhost
  obtain ⟨app',happ⟩ := Option.isSome_iff_exists.mp happ
  obtain ⟨proc',hproc⟩ := Option.isSome_iff_exists.mp hproc
  rw [readHeader, htime, hhost, happ, hproc]
  cases priVersion pri with
  | none => exact iff_of_false Bool.false_ne_true (fun h => Bool.false_ne_true h.1)
  | some pv =>
    cases field 32 msg with
    | none => exact iff_of_false Bool.false_ne_true (fun h => Bool.false_ne_true h.2)
    | some msg' => exact iff_of_true rfl ⟨rfl,rfl⟩

theorem isSome_field (hn : 0 < n) : (field n cs).isSome = true ↔ cs ≠ [] ∧ cs.length ≤ n ∧ cs.all printable = true := by
  rw [field]
  split_ifs with hnil hfield
  · rw [hnil]
    exact iff_of_true rfl ⟨List.cons_ne_nil _ _,hn,by decide⟩
  · exact iff_of_true rfl hfield
  · exact iff_of_false Bool.false_ne_true hfield

theorem not_mem_of_printable (h : cs.all printable = true) : ' ' ∉ cs :=
  fun hmem => absurd (List.all_eq_true.mp h ' ' hmem) (by decide)

theorem number_toDigits (n : ℕ) : number (Nat.toDigits 10 n) = some n := by
  induction n using Nat.strong_induction_on with
  | h n ih =>
    by_cases hlt : n < 10
    · have hone := @number_concat [] n hlt
      rw [Nat.toDigits_of_lt_base hlt, ← List.nil_append [Nat.digitChar n], hone]
      exact congrArg some (by simp [PyText.ofDigits])
    · rw [Nat.toDigits_of_base_le (by decide) (not_lt.mp hlt), number_concat (Nat.mod_lt n (by decide)),
        ih (n / 10) (Nat.div_lt_self (by omega) (by decide))]
      exact congrArg some (Nat.div_add_mod' n 10)

theorem priVersion_of_digits (h : '>' ∉ cs) :
    priVersion ('<' :: (cs ++ ['>','1'])) = (shortNumber 3 cs).bind (fun prival => if prival ≤ 191 then some (prival,1) else none) := by
  have hall : ∀ c ∈ cs, decide (c ≠ '>') = true := fun c hc => decide_eq_true (fun he => h (he ▸ hc))
  have hversion : shortNumber 3 ['1'] = some 1 := by decide
  rw [priVersion, List.takeWhile_append_of_pos hall, List.dropWhile_append_of_pos hall, List.takeWhile_cons_of_neg (by decide),
    List.dropWhile_cons_of_neg (by decide), List.append_nil, List.tail_cons, hversion]
  cases shortNumber 3 cs with
  | none => rfl
  | some prival => simp

/-- The priority is read where it is in its range. -/
theorem isSome_priVersion {z : ℤ} : (priVersion ('<' :: ((toString z).toList ++ ['>','1']))).isSome = true ↔ 0 ≤ z ∧ z ≤ 191 := by
  cases z with
  | ofNat m =>
    have hlist : (toString (Int.ofNat m)).toList = Nat.toDigits 10 m := Nat.toList_repr
    have hno : '>' ∉ Nat.toDigits 10 m := fun hmem => absurd (PyText.isDigit_of_mem_toDigits hmem) (by decide)
    have hne : Nat.toDigits 10 m ≠ [] := List.ne_nil_of_length_pos Nat.length_toDigits_pos
    have hlength : (Nat.toDigits 10 m).length ≤ 3 ↔ m < 1000 := Nat.length_toDigits_le_iff (by decide) (by decide)
    rw [hlist, priVersion_of_digits hno, shortNumber, number_toDigits, Int.ofNat_eq_natCast]
    split_ifs with hshort
    · by_cases hle : m ≤ 191 <;> simp [hle]
    · have hbig : ¬ m < 1000 := fun hlt => hshort ⟨hne,hlength.mpr hlt⟩
      refine iff_of_false Bool.false_ne_true (fun hrange => ?_)
      omega
  | negSucc m =>
    have hlist : (toString (Int.negSucc m)).toList = '-' :: Nat.toDigits 10 (m + 1) := by
      have htext : toString (Int.negSucc m) = "-" ++ (m + 1).repr := rfl
      rw [htext, String.toList_append, Nat.toList_repr]
      rfl
    have hno : '>' ∉ '-' :: Nat.toDigits 10 (m + 1) := by
      rw [List.mem_cons, not_or]
      exact ⟨by decide,fun hmem => absurd (PyText.isDigit_of_mem_toDigits hmem) (by decide)⟩
    have hnumber : number ('-' :: Nat.toDigits 10 (m + 1)) = none := by
      have hminus : PyText.digit 10 '-' = none := by decide
      rw [number, PyText.digits, List.mapM_cons, hminus]
      rfl
    rw [hlist, priVersion_of_digits hno, shortNumber, hnumber, ite_self]
    exact iff_of_false Bool.false_ne_true (fun hrange => absurd hrange.1 (by omega))

end

/-! ## The times of the clock -/

section
variable {t : Instant} {rest : List Char}

theorem fullDate_dateOf {d : ℕ × ℕ × ℕ} (h : Fits d)
    (hvalid : 1 ≤ d.2.1 ∧ d.2.1 ≤ 12 ∧ 1 ≤ d.2.2 ∧ d.2.2 ≤ daysInMonth d.1 d.2.1) : fullDate ((dateOf d).toList ++ rest) = some rest := by
  obtain ⟨hy,hm,hd⟩ := h
  rw [toList_dateOf, fullDate, List.append_assoc, takeNumber_pad (by decide) hy]
  simp only [Option.bind_eq_bind, Option.bind_some, after, List.cons_append, List.head?_cons, if_true, List.tail_cons, List.append_assoc,
    takeNumber_pad (show 0 < 2 by decide) hm, takeNumber_pad (show 0 < 2 by decide) hd]
  exact if_pos hvalid

theorem fullDate_dateText (h : t < endOfTime) : fullDate ((dateText t).toList ++ rest) = some rest := by
  have hvalid := ordinalOf_civil (day_of_lt h)
  rw [ordinalOf] at hvalid
  split_ifs at hvalid with hparts
  rw [dateText_eq]
  exact fullDate_dateOf (fits_civil h) hparts.2.2

theorem hourMinute_pad {h m : ℕ} (hh : h < 24) (hm : m < 60) :
    hourMinute ((pad 2 h).toList ++ ':' :: ((pad 2 m).toList ++ rest)) = some rest := by
  rw [hourMinute, takeNumber_pad (by decide) (hh.trans (by decide))]
  simp only [Option.bind_eq_bind, Option.bind_some, after, List.head?_cons, if_true, List.tail_cons,
    takeNumber_pad (show 0 < 2 by decide) (hm.trans (show 60 < 10 ^ 2 by decide))]
  exact if_pos ⟨hh,hm⟩

theorem secondsOffset_pad {s f : ℕ} (hs : s < 60) (hf : f < 10 ^ 6) :
    secondsOffset ((pad 2 s).toList ++ '.' :: ((pad 6 f).toList ++ ['Z'])) = true := by
  have hdigits : ∀ c ∈ (pad 6 f).toList, c.isDigit = true := fun _ => isDigit_of_mem_pad
  have hfraction : ((pad 6 f).toList ++ ['Z']).takeWhile Char.isDigit = (pad 6 f).toList := by
    rw [List.takeWhile_append_of_pos hdigits, List.takeWhile_cons_of_neg (by decide), List.append_nil]
  rw [secondsOffset, takeNumber_pad (by decide) (hs.trans (by decide))]
  dsimp only
  rw [List.head?_cons, if_pos rfl, List.tail_cons, hfraction, length_pad (by decide) hf, List.drop_left' (length_pad (by decide) hf),
    decide_eq_true hs]
  rfl

/-- An instant to the microsecond, in UTC. -/
def stampText (t : Instant) : String := dateText t ++ "T" ++ timeText t ++ "." ++ pad 6 (t % second) ++ "Z"

theorem dateTime_stampText (h : t < endOfTime) : dateTime (stampText t).toList = true := by
  have hday : t % day / second < 86400 := Nat.div_lt_of_lt_mul (Nat.mod_lt t (by decide : 0 < 86400 * second))
  have hlist : (stampText t).toList = (dateText t).toList ++ 'T' :: ((pad 2 (t % day / second / 3600)).toList ++
      ':' :: ((pad 2 (t % day / second / 60 % 60)).toList ++ ':' :: ((pad 2 (t % day / second % 60)).toList ++
        '.' :: ((pad 6 (t % second)).toList ++ ['Z'])))) := by
    rw [stampText]
    simp only [String.toList_append, toList_timeText, List.append_assoc, List.cons_append]
    rfl
  rw [hlist, dateTime, fullDate_dateText h]
  generalize t % day / second = s at hday ⊢
  simp only [Option.bind_some, after, List.head?_cons, if_true, List.tail_cons]
  rw [hourMinute_pad (Nat.div_lt_of_lt_mul hday) (Nat.mod_lt _ (by decide))]
  exact secondsOffset_pad (Nat.mod_lt _ (by decide)) (Nat.mod_lt t (by decide))

theorem isSome_timestamp (h : t < endOfTime) : (timestamp (stampText t).toList).isSome = true := by
  rw [timestamp, if_pos (dateTime_stampText h)]
  split <;> rfl

end

/-! ## Parameters that are written as they are -/

def NameOk (name : String) : Prop := name.toList ≠ [] ∧ name.toList.length ≤ 32 ∧ ∀ c ∈ name.toList, nameChar c = true

instance (name : String) : Decidable (NameOk name) :=
  @instDecidableAnd _ _ inferInstance (@instDecidableAnd _ _ inferInstance (List.decidableBAll (fun c => nameChar c = true) name.toList))

/-- A value without a character that has to be escaped. -/
def Clean (p : String × String) : Prop := ∀ c ∈ p.2.toList, escaped c = false

def paramText (p : String × String) : List Char := p.1.toList ++ '=' :: '\x22' :: (p.2.toList ++ ['\x22'])

def elementText (id : String) (ps : List (String × String)) : List Char :=
  '[' :: (id.toList ++ (ps.flatMap (fun p => ' ' :: paramText p) ++ [']']))

section
variable {n : ℕ} {v rest : List Char} {p : String × String} {ps : List (String × String)} {c : Char}

theorem sdName_append {name : String} (h : NameOk name) (hc : nameChar c = false) :
    sdName (name.toList ++ c :: rest) = some (name,c :: rest) := by
  obtain ⟨hne,hlength,hall⟩ := h
  rw [sdName, List.takeWhile_append_of_pos hall, List.dropWhile_append_of_pos hall, List.takeWhile_cons_of_neg (by rw [hc]; decide),
    List.dropWhile_cons_of_neg (by rw [hc]; decide), List.append_nil]
  exact (if_pos ⟨hne,hlength⟩).trans (by rw [String.ofList_toList])

theorem escaped_iff : escaped c = true ↔ c = '\x22' ∨ c = '\x5c' ∨ c = ']' := by
  rw [escaped, Bool.or_eq_true, Bool.or_eq_true, decide_eq_true_iff, decide_eq_true_iff, decide_eq_true_iff, or_assoc]

theorem not_escaped (h : escaped c = false) : c ≠ '\x22' ∧ c ≠ '\x5c' ∧ c ≠ ']' := by
  have hnot : ¬ (c = '\x22' ∨ c = '\x5c' ∨ c = ']') := fun he => absurd (escaped_iff.mpr he) (by rw [h]; decide)
  rwa [not_or, not_or] at hnot

theorem paramValue_cons (h : escaped c = false) :
    paramValue false (c :: rest) = (paramValue false rest).map (fun r => (c :: r.1,r.2)) := by
  obtain ⟨hquote,hslash,hbracket⟩ := not_escaped h
  rw [paramValue, if_neg hquote, if_neg hslash, if_neg hbracket]

theorem paramValue_append (h : ∀ c ∈ v, escaped c = false) : paramValue false (v ++ '\x22' :: rest) = some (v,rest) := by
  induction v with
  | nil => rfl
  | cons c v ih =>
    obtain ⟨hc,hv⟩ := List.forall_mem_cons.mp h
    rw [List.cons_append, paramValue_cons hc, ih hv]
    rfl

/-- A value that is written as it is, though a character of it had to be escaped, reads as one
with a quote or as a shorter one. -/
theorem paramValue_short {r : List Char} (hquote : '\x22' ∉ v) :
    (∀ x, paramValue false (v ++ '\x22' :: rest) = some (x,r) →
      '\x22' ∈ x ∨ x.length < v.length ∨ (x.length = v.length ∧ ∀ c ∈ v, escaped c = false)) ∧
    ∀ x, paramValue true (v ++ '\x22' :: rest) = some (x,r) → '\x22' ∈ x ∨ x.length ≤ v.length := by
  induction v with
  | nil =>
    constructor
    · intro x hx
      obtain ⟨rfl,-⟩ := Prod.mk.inj (Option.some_inj.mp hx)
      exact Or.inr (Or.inr ⟨rfl,fun _ hc => absurd hc List.not_mem_nil⟩)
    · intro x hx
      obtain ⟨y,-,hy⟩ := Option.map_eq_some_iff.mp hx
      rw [← (Prod.mk.inj hy).1]
      exact Or.inl List.mem_cons_self
  | cons c v ih =>
    obtain ⟨hc,hv⟩ := List.ne_and_not_mem_of_not_mem_cons hquote
    obtain ⟨hplain,hslashed⟩ := ih hv
    constructor
    · intro x hx
      rw [List.cons_append, paramValue, if_neg hc.symm] at hx
      split_ifs at hx with hslash hbracket
      · exact (hslashed x hx).imp_right (fun hle => Or.inl (Nat.lt_succ_of_le hle))
      · obtain ⟨⟨y,r'⟩,hy,hxy⟩ := Option.map_eq_some_iff.mp hx
        obtain ⟨rfl,rfl⟩ := Prod.mk.inj hxy
        rcases hplain y hy with hmem | hlt | ⟨heq,hclean⟩
        · exact Or.inl (List.mem_cons_of_mem c hmem)
        · exact Or.inr (Or.inl (Nat.succ_lt_succ hlt))
        · refine Or.inr (Or.inr ⟨congrArg Nat.succ heq,List.forall_mem_cons.mpr ⟨?_,hclean⟩⟩)
          rw [← Bool.not_eq_true, escaped_iff]
          rintro (he | he | he)
          · exact hc he.symm
          · exact hslash he
          · exact hbracket he
    · intro x hx
      rw [List.cons_append, paramValue] at hx
      split_ifs at hx
      obtain ⟨⟨y,r'⟩,hy,hxy⟩ := Option.map_eq_some_iff.mp hx
      obtain ⟨rfl,rfl⟩ := Prod.mk.inj hxy
      rcases hplain y hy with hmem | hlt | ⟨heq,-⟩
      · exact Or.inl (List.mem_cons_of_mem c hmem)
      · exact Or.inr (Nat.succ_le_succ hlt.le)
      · exact Or.inr (Nat.succ_le_succ heq.le)

/-- A value that is read back as it was written had nothing to escape. -/
theorem escaped_of_paramValue {r : List Char} (hquote : '\x22' ∉ v) (h : paramValue false (v ++ '\x22' :: rest) = some (v,r)) :
    ∀ c ∈ v, escaped c = false := by
  rcases (paramValue_short hquote).1 v h with hmem | hlt | ⟨-,hclean⟩
  · exact absurd hmem hquote
  · exact absurd hlt (lt_irrefl _)
  · exact hclean

theorem sdParam_eq (hname : NameOk p.1) : sdParam (paramText p ++ rest) =
    (paramValue false (p.2.toList ++ '\x22' :: rest)).map (fun r => ((p.1,String.ofList r.1),r.2)) := by
  have htext : paramText p ++ rest = p.1.toList ++ '=' :: ('\x22' :: (p.2.toList ++ '\x22' :: rest)) := by
    rw [paramText, List.append_assoc, List.cons_append, List.cons_append, List.append_assoc, List.singleton_append]
  rw [htext, sdParam, sdName_append hname (by decide)]
  simp only [Option.bind_eq_bind, Option.bind_some, after, List.head?_cons, if_true, List.tail_cons]
  cases paramValue false (p.2.toList ++ '\x22' :: rest) <;> rfl

theorem sdParam_text (hname : NameOk p.1) (hclean : Clean p) : sdParam (paramText p ++ rest) = some (p,rest) := by
  rw [sdParam_eq hname, paramValue_append hclean, Option.map_some, String.ofList_toList]

theorem clean_of_sdParam {r : List Char} (hname : NameOk p.1) (hquote : '\x22' ∉ p.2.toList)
    (h : sdParam (paramText p ++ rest) = some (p,r)) : Clean p := by
  rw [sdParam_eq hname] at h
  obtain ⟨⟨x,r'⟩,hx,hp⟩ := Option.map_eq_some_iff.mp h
  obtain ⟨hpair,rfl⟩ := Prod.mk.inj hp
  have hvalue : x = p.2.toList := by rw [← (Prod.mk.inj hpair).2, String.toList_ofList]
  rw [hvalue] at hx
  exact escaped_of_paramValue hquote hx

theorem sdParams_space (n : ℕ) (cs : List Char) :
    sdParams (n + 1) (' ' :: cs) = (sdParam cs).bind (fun r => (sdParams n r.2).map (fun q => (r.1 :: q.1,q.2))) := by
  have hopen : ¬ (' ' :: cs).head? = some ']' := by
    rw [List.head?_cons]
    decide
  rw [sdParams, if_neg hopen]
  simp only [after, List.head?_cons, if_true, List.tail_cons, Option.bind_eq_bind, Option.bind_some]
  cases sdParam cs with
  | none => rfl
  | some r =>
    dsimp only [Option.bind_some]
    cases sdParams n r.2 <;> rfl

theorem sdParams_text (hn : ps.length ≤ n) (hname : ∀ p ∈ ps, NameOk p.1) (hclean : ∀ p ∈ ps, Clean p) :
    sdParams n (ps.flatMap (fun p => ' ' :: paramText p) ++ ']' :: rest) = some (ps,rest) := by
  induction ps generalizing n with
  | nil => cases n <;> rfl
  | cons p ps ih =>
    obtain ⟨hp,hps⟩ := List.forall_mem_cons.mp hname
    obtain ⟨hc,hcs⟩ := List.forall_mem_cons.mp hclean
    cases n with
    | zero => exact absurd hn (Nat.not_succ_le_zero _)
    | succ n =>
      rw [List.flatMap_cons, List.append_assoc, List.cons_append, sdParams_space, sdParam_text hp hc, Option.bind_some,
        ih (Nat.le_of_succ_le_succ hn) hps hcs]
      rfl

theorem clean_of_sdParams {r : List Char} (hname : ∀ p ∈ ps, NameOk p.1) (hquote : ∀ p ∈ ps, '\x22' ∉ p.2.toList)
    (h : sdParams n (ps.flatMap (fun p => ' ' :: paramText p) ++ ']' :: rest) = some (ps,r)) : ∀ p ∈ ps, Clean p := by
  induction ps generalizing n with
  | nil => exact fun p hp => absurd hp List.not_mem_nil
  | cons p ps ih =>
    obtain ⟨hp,hps⟩ := List.forall_mem_cons.mp hname
    obtain ⟨hq,hqs⟩ := List.forall_mem_cons.mp hquote
    rw [List.flatMap_cons, List.append_assoc, List.cons_append] at h
    cases n with
    | zero => cases h
    | succ n =>
      rw [sdParams_space] at h
      obtain ⟨⟨q,r₁⟩,hfirst,hmapped⟩ := Option.bind_eq_some_iff.mp h
      obtain ⟨⟨qs,r₂⟩,hrest,hpair⟩ := Option.map_eq_some_iff.mp hmapped
      obtain ⟨hlist,hr⟩ := Prod.mk.inj hpair
      obtain ⟨rfl,rfl⟩ := List.cons.inj hlist
      change r₂ = r at hr
      subst hr
      have hc := clean_of_sdParam hp hq hfirst
      rw [sdParam_text hp hc] at hfirst
      rw [← (Prod.mk.inj (Option.some_inj.mp hfirst)).2] at hrest
      exact List.forall_mem_cons.mpr ⟨hc,ih hps hqs hrest⟩

theorem sdElement_eq {id : String} (hid : NameOk id) :
    sdElement (elementText id ps ++ rest) =
      (sdParams (ps.flatMap (fun p => ' ' :: paramText p) ++ ']' :: rest).length (ps.flatMap (fun p => ' ' :: paramText p) ++ ']' :: rest)).map
        (fun r => (⟨id,r.1⟩,r.2)) := by
  obtain ⟨c,more,hmore,hc⟩ : ∃ c more, ps.flatMap (fun p => ' ' :: paramText p) ++ ']' :: rest = c :: more ∧ nameChar c = false := by
    cases ps with
    | nil => exact ⟨_,_,rfl,by decide⟩
    | cons p ps => exact ⟨_,_,rfl,by decide⟩
  rw [sdElement, elementText, List.cons_append, List.append_assoc, List.append_assoc, List.singleton_append, hmore]
  simp only [after, List.head?_cons, if_true, List.tail_cons, Option.bind_eq_bind, Option.bind_some, sdName_append hid hc]
  cases sdParams (c :: more).length (c :: more) <;> rfl

theorem structuredData_elementText {id : String} : structuredData (elementText id ps ++ rest) =
    (sdElement (elementText id ps ++ rest)).bind (fun r =>
      if r.2.head? = some '[' then (sdElements ((elementText id ps ++ rest).length - 1) r.2).map (fun q => (r.1 :: q.1,q.2))
      else some ([r.1],r.2)) := by
  have hopen : ¬ (elementText id ps ++ rest).head? = some '-' := by
    rw [elementText, List.cons_append, List.head?_cons]
    decide
  obtain ⟨k,hk⟩ : ∃ k, (elementText id ps ++ rest).length = k + 1 := ⟨_,rfl⟩
  rw [structuredData, if_neg hopen, hk, sdElements, Nat.add_sub_cancel]
  simp only [Option.bind_eq_bind]
  refine congrArg _ (funext fun r => ?_)
  split_ifs
  · cases sdElements k r.2 <;> rfl
  · rfl

/-- An element whose values are written as they are is read back where none had to be escaped. -/
theorem structuredData_text {id : String} (hid : NameOk id) (hname : ∀ p ∈ ps, NameOk p.1) (hclean : ∀ p ∈ ps, Clean p)
    (hrest : rest.head? ≠ some '[') : structuredData (elementText id ps ++ rest) = some ([⟨id,ps⟩],rest) := by
  have hlength : ps.length ≤ (ps.flatMap (fun p => ' ' :: paramText p) ++ ']' :: rest).length := by
    rw [List.length_append]
    refine Nat.le_add_right_of_le ?_
    clear hname hclean
    induction ps with
    | nil => exact Nat.zero_le _
    | cons p ps ih =>
      rw [List.flatMap_cons, List.length_append, List.length_cons, List.length_cons]
      omega
  have hone : sdElement (elementText id ps ++ rest) = some (⟨id,ps⟩,rest) := by
    rw [sdElement_eq hid, sdParams_text hlength hname hclean]
    rfl
  rw [structuredData_elementText, hone]
  exact if_neg hrest

/-- The first element read is the one that is written first. -/
theorem clean_of_structuredData {id : String} {e : Element} {es : List Element} {r : List Char} (hid : NameOk id)
    (hname : ∀ p ∈ ps, NameOk p.1) (hquote : ∀ p ∈ ps, '\x22' ∉ p.2.toList)
    (h : structuredData (elementText id ps ++ rest) = some (e :: es,r)) (he : e.params = ps) : ∀ p ∈ ps, Clean p := by
  rw [structuredData_elementText] at h
  obtain ⟨⟨e',r'⟩,hone,hmore⟩ := Option.bind_eq_some_iff.mp h
  have hfirst : e' = e := by
    dsimp only at hmore
    split_ifs at hmore
    · obtain ⟨q,-,hq⟩ := Option.map_eq_some_iff.mp hmore
      exact (List.cons.inj (Prod.mk.inj hq).1).1
    · exact (List.cons.inj (Prod.mk.inj (Option.some_inj.mp hmore)).1).1
  rw [sdElement_eq hid] at hone
  obtain ⟨⟨ps',r''⟩,hparams,hpair⟩ := Option.map_eq_some_iff.mp hone
  have hps : ps' = ps := by
    rw [← he, ← hfirst, ← (Prod.mk.inj hpair).1]
  rw [hps] at hparams
  exact clean_of_sdParams hname hquote hparams

end

end Foundation.Rfc5424
