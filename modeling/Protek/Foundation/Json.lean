import Protek.Foundation.OrderedDict
import Protek.Foundation.PyText

/-! # JSON texts

`dumps` is `json.dumps` with its default separators and ASCII output, `loads` is
`json.loads`. A float is kept as its literal. A text with a surrogate that has no
partner is no Lean string; as a value it is kept as its code points, and in a key the
surrogate is replaced.
-/
namespace Foundation.Json
open PyText

inductive Value
  | null
  | bool (b : Bool)
  | int (n : ℤ)
  | float (literal : String)
  | str (s : String)
  | lone (points : List ℕ)
  | arr (l : List Value)
  | obj (kvs : List (String × Value))
  deriving Repr

/-! ## Writing -/

def hex4 (u : ℕ) : List Char :=
  [Nat.digitChar (u / 4096 % 16),Nat.digitChar (u / 256 % 16),Nat.digitChar (u / 16 % 16),Nat.digitChar (u % 16)]

/-- The UTF-16 code units of a character. -/
def unitsOf (c : Char) : List ℕ :=
  if c.toNat < 0x10000 then [c.toNat]
  else [0xD800 + (c.toNat - 0x10000) / 0x400,0xDC00 + (c.toNat - 0x10000) % 0x400]

def escapeUnit (u : ℕ) : List Char := '\x5c' :: 'u' :: hex4 u

/-- The escapes of one letter. -/
def shortEscapes : List (ℕ × Char) := [(0x22,'\x22'),(0x5c,'\x5c'),(10,'n'),(13,'r'),(9,'t'),(12,'f'),(8,'b')]

def escapeChar (c : Char) : List Char :=
  match shortEscapes.lookup c.toNat with
  | some e => ['\x5c',e]
  | none => if 32 ≤ c.toNat ∧ c.toNat ≤ 126 then [c] else (unitsOf c).flatMap escapeUnit

/-- A code point, which may be a surrogate. -/
def escapePoint (u : ℕ) : List Char := if u.isValidChar then escapeChar (Char.ofNat u) else escapeUnit u

def dumpsStr (s : String) : List Char := '\x22' :: s.toList.flatMap escapeChar ++ ['\x22']

def dumpsInt : ℤ → List Char
  | .ofNat m => Nat.toDigits 10 m
  | .negSucc m => '-' :: Nat.toDigits 10 (m + 1)

mutual

def dumpsValue : Value → List Char
  | .null => "null".toList
  | .bool true => "true".toList
  | .bool false => "false".toList
  | .int n => dumpsInt n
  | .float literal => literal.toList
  | .str s => dumpsStr s
  | .lone points => '\x22' :: points.flatMap escapePoint ++ ['\x22']
  | .arr [] => ['[',']']
  | .arr (v :: l) => '[' :: (dumpsValue v ++ dumpsRest l)
  | .obj [] => ['\x7b','\x7d']
  | .obj ((k,v) :: kvs) => '\x7b' :: (dumpsStr k ++ ':' :: ' ' :: (dumpsValue v ++ dumpsMembers kvs))

def dumpsRest : List Value → List Char
  | [] => [']']
  | v :: l => ',' :: ' ' :: (dumpsValue v ++ dumpsRest l)

def dumpsMembers : List (String × Value) → List Char
  | [] => ['\x7d']
  | (k,v) :: kvs => ',' :: ' ' :: (dumpsStr k ++ ':' :: ' ' :: (dumpsValue v ++ dumpsMembers kvs))

end

def dumps (v : Value) : String := String.ofList (dumpsValue v)

mutual

/-- `separators=(",",":")` -/
def compactValue : Value → List Char
  | .arr [] => ['[',']']
  | .arr (v :: l) => '[' :: (compactValue v ++ compactRest l)
  | .obj [] => ['\x7b','\x7d']
  | .obj ((k,v) :: kvs) => '\x7b' :: (dumpsStr k ++ ':' :: (compactValue v ++ compactMembers kvs))
  | v => dumpsValue v

def compactRest : List Value → List Char
  | [] => [']']
  | v :: l => ',' :: (compactValue v ++ compactRest l)

def compactMembers : List (String × Value) → List Char
  | [] => ['\x7d']
  | (k,v) :: kvs => ',' :: (dumpsStr k ++ ':' :: (compactValue v ++ compactMembers kvs))

end

def compact (v : Value) : String := String.ofList (compactValue v)

/-! ## Reading -/

def isWhite (c : Char) : Bool := c = ' ' || c = '\t' || c = '\n' || c = '\r'

def skip (cs : List Char) : List Char := cs.dropWhile isWhite

def readEscapes : List (Char × ℕ) :=
  [('\x22',0x22),('\x5c',0x5c),('/',0x2f),('b',8),('f',12),('n',10),('r',13),('t',9)]

def parseHex4 (a b c d : Char) : Option ℕ := do
  let w ← digit 16 a
  let x ← digit 16 b
  let y ← digit 16 c
  let z ← digit 16 d
  some (w * 4096 + x * 256 + y * 16 + z)

/-- The code units of a text up to its closing quote, and what follows. -/
def parseUnits : List Char → Option (List ℕ × List Char)
  | [] => none
  | c :: rest =>
    if c = '\x22' then some ([],rest)
    else if c = '\x5c' then
      match rest with
      | 'u' :: a :: b :: x :: y :: r => (parseHex4 a b x y).bind (fun u => (parseUnits r).map (fun p => (u :: p.1,p.2)))
      | e :: r => (readEscapes.lookup e).bind (fun u => (parseUnits r).map (fun p => (u :: p.1,p.2)))
      | [] => none
    else if c.toNat < 32 then none
    else (parseUnits rest).map (fun p => (c.toNat :: p.1,p.2))

/-- Pairs of surrogates become the character they stand for. -/
def joinUnits : List ℕ → List ℕ
  | h :: l :: rest =>
    if 0xD800 ≤ h ∧ h ≤ 0xDBFF ∧ 0xDC00 ≤ l ∧ l ≤ 0xDFFF then
      (0x10000 + (h - 0xD800) * 0x400 + (l - 0xDC00)) :: joinUnits rest
    else h :: joinUnits (l :: rest)
  | l => l

def stringValue (units : List ℕ) : Value :=
  if (joinUnits units).all (fun u => decide u.isValidChar) then .str (String.ofList ((joinUnits units).map Char.ofNat))
  else .lone (joinUnits units)

def keyText (units : List ℕ) : String :=
  String.ofList ((joinUnits units).map (fun u => if u.isValidChar then Char.ofNat u else Char.ofNat 0xFFFD))

def signPart (cs : List Char) : List Char :=
  match cs with
  | '-' :: _ => ['-']
  | _ => []

/-- The text of an integer part, by the pattern `0|[1-9][0-9]*`. -/
def intPart (cs : List Char) : List Char :=
  match cs with
  | '0' :: _ => ['0']
  | _ => cs.takeWhile Char.isDigit

/-- The texts of a fraction and an exponent, empty where there is none. -/
def fractionPart (cs : List Char) : List Char :=
  match cs with
  | '.' :: rest => if rest.takeWhile Char.isDigit = [] then [] else '.' :: rest.takeWhile Char.isDigit
  | _ => []

def exponentPart (cs : List Char) : List Char :=
  match cs with
  | e :: rest =>
    if e = 'e' ∨ e = 'E' then
      let sign := match rest with
        | '+' :: _ => ['+']
        | '-' :: _ => ['-']
        | _ => []
      let ds := (rest.drop sign.length).takeWhile Char.isDigit
      if ds = [] then [] else e :: (sign ++ ds)
    else []
  | [] => []

def parseNumber (cs : List Char) : Option (Value × List Char) :=
  let sign := signPart cs
  let whole := intPart (cs.drop sign.length)
  if whole = [] then none
  else
    let rest := cs.drop (sign.length + whole.length)
    let fraction := fractionPart rest
    let exponent := exponentPart (rest.drop fraction.length)
    let n : ℤ := Nat.ofDigitChars 10 whole 0
    some (if fraction = [] ∧ exponent = [] then .int (if sign = [] then n else -n)
      else .float (String.ofList (sign ++ whole ++ fraction ++ exponent)),
      rest.drop (fraction.length + exponent.length))

def literals : List (String × Value) :=
  [("null",.null),("true",.bool true),("false",.bool false),("NaN",.float "NaN"),("Infinity",.float "Infinity"),
    ("-Infinity",.float "-Infinity")]

def parseLiteral (cs : List Char) : Option (Value × List Char) :=
  literals.findSome? (fun p => if p.1.toList.isPrefixOf cs then some (p.2,cs.drop p.1.toList.length) else none)

/-- A later value of a key takes the place of the earlier one. -/
def dictOf (kvs : List (String × Value)) : List (String × Value) :=
  kvs.foldl (fun items p => OrderedDict.setItems p.1 p.2 items) []

mutual

/-- A value and the text after it; the first argument bounds the recursion. -/
def parseValue : ℕ → List Char → Option (Value × List Char)
  | 0, _ => none
  | n + 1, cs =>
    match cs with
    | '\x22' :: rest => (parseUnits rest).map (fun p => (stringValue p.1,p.2))
    | '[' :: rest =>
      match skip rest with
      | ']' :: r => some (.arr [],r)
      | r => (parseElements n r).map (fun p => (.arr p.1,p.2))
    | '\x7b' :: rest =>
      match skip rest with
      | '\x7d' :: r => some (.obj [],r)
      | r => (parseMembers n r).map (fun p => (.obj (dictOf p.1),p.2))
    | cs => (parseLiteral cs).orElse (fun _ => parseNumber cs)

def parseElements : ℕ → List Char → Option (List Value × List Char)
  | 0, _ => none
  | n + 1, cs =>
    (parseValue n cs).bind (fun p =>
      match skip p.2 with
      | ']' :: r => some ([p.1],r)
      | ',' :: r => (parseElements n (skip r)).map (fun q => (p.1 :: q.1,q.2))
      | _ => none)

def parseMembers : ℕ → List Char → Option (List (String × Value) × List Char)
  | 0, _ => none
  | n + 1, cs =>
    match cs with
    | '\x22' :: rest =>
      (parseUnits rest).bind (fun k =>
        match skip k.2 with
        | ':' :: r =>
          (parseValue n (skip r)).bind (fun p =>
            match skip p.2 with
            | '\x7d' :: r' => some ([(keyText k.1,p.1)],r')
            | ',' :: r' => (parseMembers n (skip r')).map (fun q => ((keyText k.1,p.1) :: q.1,q.2))
            | _ => none)
        | _ => none)
    | _ => none

end

/-- `json.loads`, `none` where it raises JSONDecodeError. -/
def loads (s : String) : Option Value :=
  (parseValue s.toList.length (skip s.toList)).bind (fun p => if skip p.2 = [] then some p.1 else none)

/-! ## What is written is read back -/

theorem digit_digitChar : ∀ k : Fin 16, digit 16 (Nat.digitChar k) = some k := by decide

theorem digit_digitChar_mod (n : ℕ) : digit 16 (Nat.digitChar (n % 16)) = some ⟨n % 16,Nat.mod_lt _ (by decide)⟩ :=
  digit_digitChar ⟨n % 16,Nat.mod_lt _ (by decide)⟩

theorem parseUnits_quote (r : List Char) : parseUnits ('\x22' :: r) = some ([],r) := by
  rw [parseUnits.eq_def]
  rfl

theorem parseUnits_plain {c : Char} (hquote : c ≠ '\x22') (hslash : c ≠ '\x5c') (h : ¬ c.toNat < 32) (r : List Char) :
    parseUnits (c :: r) = (parseUnits r).map (fun p => (c.toNat :: p.1,p.2)) := by
  rw [parseUnits.eq_def]
  simp only [if_neg hquote, if_neg hslash, if_neg h]

theorem parseUnits_escape {e : Char} (he : e ≠ 'u') (r : List Char) : parseUnits ('\x5c' :: e :: r) =
    (readEscapes.lookup e).bind (fun u => (parseUnits r).map (fun p => (u :: p.1,p.2))) := by
  rw [parseUnits.eq_def]
  simp only [Char.reduceEq, if_false, if_true]
  split
  · rename_i heq
    exact absurd (List.cons.inj heq).1 he
  · rename_i heq
    obtain ⟨rfl,rfl⟩ := List.cons.inj heq
    rfl
  · rename_i heq
    cases heq

theorem parseUnits_unicode (a b x y : Char) (r : List Char) : parseUnits ('\x5c' :: 'u' :: a :: b :: x :: y :: r) =
    (parseHex4 a b x y).bind (fun u => (parseUnits r).map (fun p => (u :: p.1,p.2))) := by
  rw [parseUnits.eq_def]
  simp only [Char.reduceEq, if_false, if_true]

theorem parseUnits_escapeUnit {u : ℕ} (hu : u < 0x10000) (r : List Char) :
    parseUnits (escapeUnit u ++ r) = (parseUnits r).map (fun p => (u :: p.1,p.2)) := by
  have hval : u / 4096 % 16 * 4096 + u / 256 % 16 * 256 + u / 16 % 16 * 16 + u % 16 = u := by omega
  have hhex : parseHex4 (Nat.digitChar (u / 4096 % 16)) (Nat.digitChar (u / 256 % 16)) (Nat.digitChar (u / 16 % 16))
      (Nat.digitChar (u % 16)) = some u := by
    unfold parseHex4
    simp only [digit_digitChar_mod, Option.bind_eq_bind, Option.bind_some, hval]
  unfold escapeUnit hex4
  simp only [List.cons_append, List.nil_append]
  rw [parseUnits_unicode, hhex, Option.bind_some]

theorem toNat_valid (c : Char) : c.toNat < 0xD800 ∨ 0xDFFF < c.toNat ∧ c.toNat < 0x110000 := c.valid

theorem unitsOf_lt (c : Char) : ∀ u ∈ unitsOf c, u < 0x10000 := by
  have hc := toNat_valid c
  intro u hu
  unfold unitsOf at hu
  split at hu
  · rename_i h
    rw [List.mem_singleton.mp hu]
    exact h
  · rcases List.mem_cons.mp hu with rfl | hu
    · omega
    · rw [List.mem_singleton.mp hu]
      omega

theorem parseUnits_escapeUnits {us : List ℕ} (hu : ∀ u ∈ us, u < 0x10000) (r : List Char) :
    parseUnits (us.flatMap escapeUnit ++ r) = (parseUnits r).map (fun p => (us ++ p.1,p.2)) := by
  induction us with
  | nil => simp
  | cons u us ih =>
    rw [List.flatMap_cons, List.append_assoc, parseUnits_escapeUnit (hu u List.mem_cons_self),
      ih (fun v hv => hu v (List.mem_cons_of_mem _ hv)), Option.map_map]
    rfl

theorem shortEscapes_read : ∀ p ∈ shortEscapes, p.2 ≠ 'u' ∧ readEscapes.lookup p.2 = some p.1 ∧ p.1 < 0x10000 := by decide

theorem parseUnits_short {c e : Char} (h : shortEscapes.lookup c.toNat = some e) (r : List Char) :
    parseUnits ('\x5c' :: e :: r) = (parseUnits r).map (fun p => (unitsOf c ++ p.1,p.2)) := by
  obtain ⟨l₁,l₂,hl,-⟩ := List.lookup_eq_some_iff.mp h
  obtain ⟨hne,hlook,hlt⟩ := shortEscapes_read (c.toNat,e) (by rw [hl]; simp)
  have hunits : unitsOf c = [c.toNat] := if_pos hlt
  rw [hunits, parseUnits_escape hne, hlook]
  rfl

/-- The quote and the backslash have escapes of their own. -/
theorem ne_of_no_escape {c : Char} (h : shortEscapes.lookup c.toNat = none) : c ≠ '\x22' ∧ c ≠ '\x5c' := by
  constructor
  · rintro rfl
    exact absurd h (by decide)
  · rintro rfl
    exact absurd h (by decide)

theorem parseUnits_escapeChar (c : Char) (r : List Char) :
    parseUnits (escapeChar c ++ r) = (parseUnits r).map (fun p => (unitsOf c ++ p.1,p.2)) := by
  unfold escapeChar
  cases h : shortEscapes.lookup c.toNat with
  | some e => exact parseUnits_short h r
  | none =>
    dsimp only
    split
    · rename_i hc
      obtain ⟨hquote,hslash⟩ := ne_of_no_escape h
      have hunits : unitsOf c = [c.toNat] := if_pos (by omega)
      rw [hunits, List.singleton_append, parseUnits_plain hquote hslash (by omega)]
      rfl
    · exact parseUnits_escapeUnits (unitsOf_lt c) r

theorem parseUnits_dumps (cs r : List Char) :
    parseUnits (cs.flatMap escapeChar ++ '\x22' :: r) = some (cs.flatMap unitsOf,r) := by
  induction cs with
  | nil => exact parseUnits_quote r
  | cons c cs ih =>
    rw [List.flatMap_cons, List.append_assoc, parseUnits_escapeChar, ih]
    rfl

theorem joinUnits_cons {u : ℕ} (h : ¬ (0xD800 ≤ u ∧ u ≤ 0xDBFF)) (us : List ℕ) : joinUnits (u :: us) = u :: joinUnits us := by
  cases us with
  | nil => rfl
  | cons v us =>
    rw [joinUnits, if_neg]
    rintro ⟨h1,h2,-⟩
    exact h ⟨h1,h2⟩

theorem joinUnits_unitsOf (cs : List Char) : joinUnits (cs.flatMap unitsOf) = cs.map Char.toNat := by
  induction cs with
  | nil => rfl
  | cons c cs ih =>
    have hc := toNat_valid c
    rw [List.flatMap_cons, List.map_cons]
    unfold unitsOf
    split
    · rw [List.singleton_append, joinUnits_cons (by omega)]
      exact congrArg _ ih
    · rw [List.cons_append, List.singleton_append, joinUnits, if_pos (by omega)]
      refine congrArg₂ List.cons ?_ ih
      omega

theorem stringValue_unitsOf (s : String) : stringValue (s.toList.flatMap unitsOf) = .str s := by
  have hmap : (s.toList.map Char.toNat).map Char.ofNat = s.toList := by simp [Function.comp_def]
  unfold stringValue
  rw [joinUnits_unitsOf, if_pos, hmap, String.ofList_toList]
  rw [List.all_eq_true]
  intro u hu
  obtain ⟨c,-,rfl⟩ := List.mem_map.mp hu
  exact decide_eq_true (toNat_valid c)

theorem keyText_unitsOf (s : String) : keyText (s.toList.flatMap unitsOf) = s := by
  have hmap : (s.toList.map Char.toNat).map (fun u => if u.isValidChar then Char.ofNat u else Char.ofNat 0xFFFD) = s.toList := by
    rw [List.map_map]
    refine (List.map_congr_left (fun c _ => ?_)).trans (List.map_id _)
    rw [Function.comp_apply, if_pos (toNat_valid c), Char.ofNat_toNat]
    rfl
  unfold keyText
  rw [joinUnits_unitsOf, hmap, String.ofList_toList]

/-! ## Numbers -/

/-- What may follow a value inside a text: its end, or one of the separators. -/
def Stops (r : List Char) : Prop := ∀ c ∈ r.head?, c = ',' ∨ c = ']' ∨ c = '\x7d'

theorem Stops.not_digit {c : Char} {r : List Char} (h : Stops (c :: r)) : c.isDigit = false ∧ c ≠ '.' ∧ c ≠ 'e' ∧ c ≠ 'E' := by
  rcases h c rfl with rfl | rfl | rfl <;> decide

theorem takeWhile_digits {ds r : List Char} (hd : ∀ c ∈ ds, c.isDigit = true) (hr : Stops r) :
    (ds ++ r).takeWhile Char.isDigit = ds := by
  rw [List.takeWhile_append_of_pos hd]
  cases r with
  | nil => simp
  | cons c r => rw [List.takeWhile_cons_of_neg (by simp [hr.not_digit.1]), List.append_nil]

theorem digitChar_ne_zero : ∀ k : Fin 10, 0 < k.val → Nat.digitChar k ≠ '0' := by decide

theorem toDigits_head {m : ℕ} (hm : 0 < m) : ∃ c ds, Nat.toDigits 10 m = c :: ds ∧ c ≠ '0' := by
  induction m using Nat.strong_induction_on with
  | _ m ih =>
    rw [Nat.toDigits_eq_if (by decide)]
    split
    · rename_i hlt
      exact ⟨_,[],rfl,digitChar_ne_zero ⟨m,hlt⟩ hm⟩
    · obtain ⟨c,ds,hds,hc⟩ := ih (m / 10) (by omega) (by omega)
      exact ⟨c,ds ++ [Nat.digitChar (m % 10)],by rw [hds]; rfl,hc⟩

theorem intPart_toDigits (m : ℕ) {r : List Char} (hr : Stops r) : intPart (Nat.toDigits 10 m ++ r) = Nat.toDigits 10 m := by
  rcases Nat.eq_zero_or_pos m with rfl | hm
  · rw [Nat.toDigits_zero]
    rfl
  · obtain ⟨c,ds,hds,hc⟩ := toDigits_head hm
    have htake := @takeWhile_digits (Nat.toDigits 10 m) r (fun _ => isDigit_of_mem_toDigits) hr
    unfold intPart
    rw [hds] at htake ⊢
    rw [List.cons_append] at htake ⊢
    split
    · rename_i heq
      exact absurd (List.cons.inj heq).1 hc
    · exact htake

theorem fraction_of_stops {r : List Char} (hr : Stops r) : fractionPart r = [] ∧ exponentPart r = [] := by
  cases r with
  | nil => exact ⟨rfl,rfl⟩
  | cons c r =>
    obtain ⟨-,hdot,he,hE⟩ := hr.not_digit
    refine ⟨?_,?_⟩
    · unfold fractionPart
      split
      · rename_i heq
        exact absurd (List.cons.inj heq).1 hdot
      · rfl
    · exact if_neg (by simp [he, hE])

/-- The reading of the digits of a count, behind a sign or not. -/
theorem parseNumber_digits (m : ℕ) {r : List Char} (hr : Stops r) {sign cs : List Char}
    (hcs : cs = sign ++ (Nat.toDigits 10 m ++ r)) (hs : signPart cs = sign) :
    parseNumber cs = some (.int (if sign = [] then (m : ℤ) else -m),r) := by
  have hdrop : cs.drop sign.length = Nat.toDigits 10 m ++ r := by rw [hcs, List.drop_left]
  have hrest : cs.drop (sign.length + (Nat.toDigits 10 m).length) = r := by
    rw [← List.drop_drop, hdrop, List.drop_left]
  obtain ⟨hf,he⟩ := fraction_of_stops hr
  unfold parseNumber
  simp only [hs, hdrop, intPart_toDigits m hr, if_neg (Nat.toDigits_ne_nil), hrest, hf, List.length_nil, List.drop_zero, he,
    Nat.ofDigitChars_ten_toDigits, and_self, if_true, Nat.add_zero]

theorem parseNumber_dumpsInt (n : ℤ) {r : List Char} (hr : Stops r) : parseNumber (dumpsInt n ++ r) = some (.int n,r) := by
  cases n with
  | ofNat m =>
    refine @parseNumber_digits m r hr [] _ rfl ?_
    unfold signPart
    split
    · rename_i heq
      have hmem : '-' ∈ Nat.toDigits 10 m := by
        obtain ⟨c,ds,hds⟩ := List.exists_cons_of_ne_nil (Nat.toDigits_ne_nil (n := m) (b := 10))
        have hc : dumpsInt (Int.ofNat m) = c :: ds := hds
        rw [hc, List.cons_append] at heq
        rw [hds, (List.cons.inj heq).1]
        exact List.mem_cons_self
      exact absurd (isDigit_of_mem_toDigits hmem) (by decide)
    · rfl
  | negSucc m =>
    refine (@parseNumber_digits (m + 1) r hr ['-'] _ rfl rfl).trans ?_
    rfl

/-! ## The round trip -/

/-- The literal of a float, read as one wherever it stands. -/
structure IsFloat (t : String) : Prop where
  head : ∃ c cs, t.toList = c :: cs ∧ isWhite c = false ∧ c ≠ ']' ∧ c ≠ '\x7d' ∧ c ≠ '\x22' ∧ c ≠ '[' ∧ c ≠ '\x7b'
  reads : ∀ r, Stops r → (parseLiteral (t.toList ++ r)).orElse (fun _ => parseNumber (t.toList ++ r)) = some (.float t,r)

mutual

/-- No lone surrogate, floats that are literals, and the keys of each object differ. -/
def Value.Plain : Value → Prop
  | .float t => IsFloat t
  | .lone _ => False
  | .arr l => PlainAll l
  | .obj kvs => (kvs.map Prod.fst).Nodup ∧ PlainMembers kvs
  | .null => True
  | .bool _ => True
  | .int _ => True
  | .str _ => True

def PlainAll : List Value → Prop
  | [] => True
  | v :: l => v.Plain ∧ PlainAll l

def PlainMembers : List (String × Value) → Prop
  | [] => True
  | (_,v) :: kvs => v.Plain ∧ PlainMembers kvs

end

theorem plainAll_iff {l : List Value} : PlainAll l ↔ ∀ v ∈ l, v.Plain := by
  induction l with
  | nil => simp [PlainAll]
  | cons v l ih => simp [PlainAll, ih]

theorem plainMembers_iff {kvs : List (String × Value)} : PlainMembers kvs ↔ ∀ p ∈ kvs, p.2.Plain := by
  induction kvs with
  | nil => simp [PlainMembers]
  | cons p kvs ih => simp [PlainMembers, ih]

theorem dictOf_eq_self {kvs : List (String × Value)} (h : (kvs.map Prod.fst).Nodup) : dictOf kvs = kvs := by
  have hset : ∀ {items : List (String × Value)} {p}, p.1 ∉ items.map Prod.fst →
      OrderedDict.setItems p.1 p.2 items = items ++ [p] := by
    intro items p hp
    induction items with
    | nil => rfl
    | cons q items ih =>
      simp only [List.map_cons, List.mem_cons, not_or] at hp
      rw [OrderedDict.setItems, if_neg (Ne.symm hp.1), ih hp.2]
      rfl
  have key : ∀ rest items : List (String × Value), ((items ++ rest).map Prod.fst).Nodup →
      rest.foldl (fun items p => OrderedDict.setItems p.1 p.2 items) items = items ++ rest := by
    intro rest
    induction rest with
    | nil => simp
    | cons p rest ih =>
      intro items hn
      have hp : p.1 ∉ items.map Prod.fst := by
        rw [List.map_append, List.map_cons] at hn
        exact fun hmem => (List.nodup_append.mp hn).2.2 p.1 hmem p.1 List.mem_cons_self rfl
      rw [List.foldl_cons, hset hp, ih _ (by simpa using hn)]
      simp
  exact key kvs [] (by simpa using h)

theorem parseValue_str (n : ℕ) (rest : List Char) :
    parseValue (n + 1) ('\x22' :: rest) = (parseUnits rest).map (fun p => (stringValue p.1,p.2)) := by
  rw [parseValue]

theorem parseValue_arr {n : ℕ} {rest r : List Char} {p : List Value × List Char} (hs : skip rest = r)
    (hne : ∀ r', r ≠ ']' :: r') (hp : parseElements n r = some p) :
    parseValue (n + 1) ('[' :: rest) = some (.arr p.1,p.2) := by
  rw [parseValue, hs]
  split
  · rename_i r'
    exact absurd rfl (hne r')
  · rw [hp]
    rfl

theorem parseValue_obj {n : ℕ} {rest r : List Char} {p : List (String × Value) × List Char} (hs : skip rest = r)
    (hne : ∀ r', r ≠ '\x7d' :: r') (hp : parseMembers n r = some p) :
    parseValue (n + 1) ('\x7b' :: rest) = some (.obj (dictOf p.1),p.2) := by
  rw [parseValue, hs]
  split
  · rename_i r'
    exact absurd rfl (hne r')
  · rw [hp]
    rfl

theorem parseValue_other (n : ℕ) {c : Char} (h : c ≠ '\x22' ∧ c ≠ '[' ∧ c ≠ '\x7b') (cs : List Char) :
    parseValue (n + 1) (c :: cs) = (parseLiteral (c :: cs)).orElse (fun _ => parseNumber (c :: cs)) := by
  rw [parseValue]
  · exact fun rest heq => h.1 (List.cons.inj heq).1
  · exact fun rest heq => h.2.1 (List.cons.inj heq).1
  · exact fun rest heq => h.2.2 (List.cons.inj heq).1

theorem isDigit_ne {c : Char} (h : c.isDigit = true) : isWhite c = false ∧ c ≠ ']' ∧ c ≠ '\x7d' ∧ c ≠ '\x22' ∧ c ≠ '[' ∧
    c ≠ '\x7b' ∧ c ≠ 'n' ∧ c ≠ 't' ∧ c ≠ 'f' ∧ c ≠ 'N' ∧ c ≠ 'I' ∧ c ≠ '-' := by
  refine ⟨?_,?_,?_,?_,?_,?_,?_,?_,?_,?_,?_,?_⟩
  · by_contra hw
    simp only [isWhite, Bool.not_eq_false, Bool.or_eq_true, decide_eq_true_eq] at hw
    rcases hw with ((rfl | rfl) | rfl) | rfl <;> exact absurd h (by decide)
  all_goals
    rintro rfl
    exact absurd h (by decide)

/-- An integer begins with a digit, or with a sign and a digit. -/
theorem dumpsInt_cases (n : ℤ) : ∃ d ds, d.isDigit = true ∧ (dumpsInt n = d :: ds ∨ dumpsInt n = '-' :: d :: ds) := by
  have hdigits : ∀ m, ∃ d ds, d.isDigit = true ∧ Nat.toDigits 10 m = d :: ds := by
    intro m
    obtain ⟨d,ds,hds⟩ := List.exists_cons_of_ne_nil (Nat.toDigits_ne_nil (n := m) (b := 10))
    exact ⟨d,ds,isDigit_of_mem_toDigits (by rw [hds]; exact List.mem_cons_self),hds⟩
  cases n with
  | ofNat m =>
    obtain ⟨d,ds,hd,hds⟩ := hdigits m
    exact ⟨d,ds,hd,Or.inl hds⟩
  | negSucc m =>
    obtain ⟨d,ds,hd,hds⟩ := hdigits (m + 1)
    exact ⟨d,ds,hd,Or.inr (congrArg _ hds)⟩

theorem parseLiteral_digit {d : Char} (h : d.isDigit = true) (cs : List Char) :
    parseLiteral (d :: cs) = none ∧ parseLiteral ('-' :: d :: cs) = none := by
  obtain ⟨-,-,-,-,-,-,hn,ht,hf,hN,hI,hm⟩ := isDigit_ne h
  constructor
  · simp [parseLiteral, literals, hn.symm, ht.symm, hf.symm, hN.symm, hI.symm, hm.symm]
  · simp [parseLiteral, literals, hI.symm]

theorem dumpsValue_head {v : Value} (h : v.Plain) :
    ∃ c cs, dumpsValue v = c :: cs ∧ isWhite c = false ∧ c ≠ ']' ∧ c ≠ '\x7d' := by
  cases v with
  | null => exact ⟨'n',_,rfl,by decide⟩
  | bool b => cases b with
    | true => exact ⟨'t',_,rfl,by decide⟩
    | false => exact ⟨'f',_,rfl,by decide⟩
  | int n =>
    obtain ⟨d,ds,hd,hds | hds⟩ := dumpsInt_cases n
    · obtain ⟨hw,hb,hc,-⟩ := isDigit_ne hd
      exact ⟨d,ds,by rw [dumpsValue, hds],hw,hb,hc⟩
    · exact ⟨'-',d :: ds,by rw [dumpsValue, hds],by decide⟩
  | str s => exact ⟨'\x22',_,by rw [dumpsValue, dumpsStr]; rfl,by decide⟩
  | arr l => cases l with
    | nil => exact ⟨'[',_,by rw [dumpsValue],by decide⟩
    | cons v l => exact ⟨'[',_,by rw [dumpsValue],by decide⟩
  | obj kvs => cases kvs with
    | nil => exact ⟨'\x7b',_,by rw [dumpsValue],by decide⟩
    | cons p kvs => exact ⟨'\x7b',_,by rw [dumpsValue],by decide⟩
  | float t =>
    obtain ⟨c,cs,hcs,hw,hb,hc,-⟩ := h.head
    exact ⟨c,cs,by rw [dumpsValue, hcs],hw,hb,hc⟩
  | lone us => exact h.elim

theorem skip_cons {c : Char} (h : isWhite c = false) (cs : List Char) : skip (c :: cs) = c :: cs :=
  List.dropWhile_cons_of_neg (by simp [h])

theorem skip_dumpsValue {v : Value} (h : v.Plain) (cs : List Char) : skip (dumpsValue v ++ cs) = dumpsValue v ++ cs := by
  obtain ⟨c,ds,hd,hw,-⟩ := dumpsValue_head h
  rw [hd, List.cons_append, skip_cons hw]

theorem stops_dumpsRest (l : List Value) (r : List Char) : Stops (dumpsRest l ++ r) := by
  intro c hc
  cases l <;> simp [dumpsRest] at hc <;> simp [← hc]

theorem stops_dumpsMembers (kvs : List (String × Value)) (r : List Char) : Stops (dumpsMembers kvs ++ r) := by
  intro c hc
  cases kvs <;> simp [dumpsMembers] at hc <;> simp [← hc]

theorem stops_nil : Stops [] := by simp [Stops]

/-- Enough fuel for the text is enough for what it was written from. -/
structure ReadsBack (n : ℕ) : Prop where
  value : ∀ v r, v.Plain → Stops r → (dumpsValue v).length ≤ n → parseValue n (dumpsValue v ++ r) = some (v,r)
  elements : ∀ v l r, v.Plain → PlainAll l → (dumpsValue v).length + (dumpsRest l).length ≤ n →
    parseElements n (dumpsValue v ++ (dumpsRest l ++ r)) = some (v :: l,r)
  members : ∀ k v kvs r, v.Plain → PlainMembers kvs →
    (dumpsStr k).length + 2 + (dumpsValue v).length + (dumpsMembers kvs).length ≤ n →
    parseMembers n (dumpsStr k ++ ':' :: ' ' :: (dumpsValue v ++ (dumpsMembers kvs ++ r))) = some ((k,v) :: kvs,r)

theorem dumpsStr_append (k : String) (r : List Char) :
    dumpsStr k ++ r = '\x22' :: (k.toList.flatMap escapeChar ++ '\x22' :: r) := by
  simp [dumpsStr]

theorem readsBack_elements {n : ℕ} (ih : ReadsBack n) (v : Value) (l : List Value) (r : List Char) (hv : v.Plain)
    (hl : PlainAll l) (hn : (dumpsValue v).length + (dumpsRest l).length ≤ n + 1) :
    parseElements (n + 1) (dumpsValue v ++ (dumpsRest l ++ r)) = some (v :: l,r) := by
  have hpos : 0 < (dumpsRest l).length := by cases l <;> simp [dumpsRest]
  rw [parseElements, ih.value v _ hv (stops_dumpsRest l r) (by omega), Option.bind_some]
  cases l with
  | nil => rfl
  | cons w l =>
    simp only [PlainAll] at hl
    have hskip : skip (' ' :: (dumpsValue w ++ (dumpsRest l ++ r))) = dumpsValue w ++ (dumpsRest l ++ r) := by
      have hdrop : skip (' ' :: (dumpsValue w ++ (dumpsRest l ++ r))) = skip (dumpsValue w ++ (dumpsRest l ++ r)) := rfl
      rw [hdrop, skip_dumpsValue hl.1]
    simp only [dumpsRest, List.cons_append, List.append_assoc, List.length_cons, List.length_append] at hn ⊢
    rw [skip_cons (by decide)]
    change (parseElements n (skip (' ' :: (dumpsValue w ++ (dumpsRest l ++ r))))).map (fun q ↦ (v :: q.1,q.2)) = _
    rw [hskip, ih.elements w l r hl.1 hl.2 (by omega)]
    rfl

theorem parseMembers_str (n : ℕ) (cs : List Char) :
    parseMembers (n + 1) ('\x22' :: cs) = (parseUnits cs).bind (fun k =>
      match skip k.2 with
      | ':' :: r =>
        (parseValue n (skip r)).bind (fun p =>
          match skip p.2 with
          | '\x7d' :: r' => some ([(keyText k.1,p.1)],r')
          | ',' :: r' => (parseMembers n (skip r')).map (fun q => ((keyText k.1,p.1) :: q.1,q.2))
          | _ => none)
      | _ => none) := by
  rw [parseMembers]

theorem readsBack_members {n : ℕ} (ih : ReadsBack n) (k : String) (v : Value) (kvs : List (String × Value)) (r : List Char)
    (hv : v.Plain) (hl : PlainMembers kvs)
    (hn : (dumpsStr k).length + 2 + (dumpsValue v).length + (dumpsMembers kvs).length ≤ n + 1) :
    parseMembers (n + 1) (dumpsStr k ++ ':' :: ' ' :: (dumpsValue v ++ (dumpsMembers kvs ++ r))) = some ((k,v) :: kvs,r) := by
  have hskip : ∀ {w : Value} {cs : List Char}, w.Plain → skip (' ' :: (dumpsValue w ++ cs)) = dumpsValue w ++ cs := by
    intro w cs hw
    have hdrop : skip (' ' :: (dumpsValue w ++ cs)) = skip (dumpsValue w ++ cs) := rfl
    rw [hdrop, skip_dumpsValue hw]
  rw [dumpsStr_append, parseMembers_str, parseUnits_dumps, Option.bind_some, skip_cons (by decide)]
  change ((parseValue n (skip (' ' :: (dumpsValue v ++ (dumpsMembers kvs ++ r))))).bind _) = _
  rw [hskip hv, ih.value v _ hv (stops_dumpsMembers kvs r) (by omega), Option.bind_some, keyText_unitsOf]
  cases kvs with
  | nil => rfl
  | cons p kvs =>
    obtain ⟨k',w⟩ := p
    simp only [PlainMembers] at hl
    simp only [dumpsMembers, List.cons_append, List.append_assoc, List.length_cons, List.length_append] at hn ⊢
    have hkey : skip (' ' :: (dumpsStr k' ++ ':' :: ' ' :: (dumpsValue w ++ (dumpsMembers kvs ++ r)))) =
        dumpsStr k' ++ ':' :: ' ' :: (dumpsValue w ++ (dumpsMembers kvs ++ r)) := rfl
    rw [skip_cons (by decide)]
    change (parseMembers n (skip (' ' :: (dumpsStr k' ++ ':' :: ' ' :: (dumpsValue w ++ (dumpsMembers kvs ++ r)))))).map
      (fun q ↦ ((k,v) :: q.1,q.2)) = _
    rw [hkey, ih.members k' w kvs r hl.1 hl.2 (by omega)]
    rfl

theorem readsBack_value {n : ℕ} (ih : ReadsBack n) (v : Value) (r : List Char) (hv : v.Plain) (hr : Stops r)
    (hn : (dumpsValue v).length ≤ n + 1) : parseValue (n + 1) (dumpsValue v ++ r) = some (v,r) := by
  cases v with
  | null => rw [dumpsValue]; exact (parseValue_other n (by decide) _).trans rfl
  | bool b => cases b with
    | true => rw [dumpsValue]; exact (parseValue_other n (by decide) _).trans rfl
    | false => rw [dumpsValue]; exact (parseValue_other n (by decide) _).trans rfl
  | int i =>
    rw [dumpsValue]
    have hnum := parseNumber_dumpsInt i hr
    obtain ⟨d,ds,hd,hds | hds⟩ := dumpsInt_cases i
    · obtain ⟨-,-,-,hq,hb,hc,-⟩ := isDigit_ne hd
      rw [hds, List.cons_append] at hnum ⊢
      rw [parseValue_other n ⟨hq,hb,hc⟩, (parseLiteral_digit hd _).1, hnum]
      rfl
    · rw [hds, List.cons_append, List.cons_append] at hnum ⊢
      rw [parseValue_other n (by decide), (parseLiteral_digit hd _).2, hnum]
      rfl
  | str s =>
    rw [dumpsValue, dumpsStr_append, parseValue_str, parseUnits_dumps, Option.map_some, stringValue_unitsOf]
  | arr l => cases l with
    | nil => rw [dumpsValue]; rfl
    | cons v l =>
      simp only [Value.Plain, PlainAll] at hv
      simp only [dumpsValue, List.length_cons, List.length_append, List.cons_append, List.append_assoc] at hn ⊢
      obtain ⟨c,cs,hcs,hw,hb,-⟩ := dumpsValue_head hv.1
      exact parseValue_arr (skip_dumpsValue hv.1 _)
        (by
          intro r' heq
          rw [hcs, List.cons_append] at heq
          exact hb (List.cons.inj heq).1)
        (ih.elements v l r hv.1 hv.2 (by omega))
  | obj kvs => cases kvs with
    | nil => rw [dumpsValue]; rfl
    | cons p kvs =>
      obtain ⟨k,v⟩ := p
      simp only [Value.Plain, PlainMembers] at hv
      obtain ⟨hnodup,hv,hkvs⟩ := hv
      simp only [dumpsValue, List.length_cons, List.length_append, List.cons_append, List.append_assoc] at hn ⊢
      have hread : skip (dumpsStr k ++ ':' :: ' ' :: (dumpsValue v ++ (dumpsMembers kvs ++ r))) = _ := rfl
      have hobj := parseValue_obj (n := n) hread
        (by
          intro r' heq
          cases heq)
        (ih.members k v kvs r hv hkvs (by omega))
      rw [hobj, dictOf_eq_self hnodup]
  | float t =>
    obtain ⟨c,cs,hcs,-,-,-,hq,hb,hc⟩ := hv.head
    have hread := hv.reads r hr
    rw [dumpsValue]
    rw [hcs, List.cons_append] at hread ⊢
    rw [parseValue_other n ⟨hq,hb,hc⟩, hread]
  | lone us => exact hv.elim

theorem dumpsValue_pos {v : Value} (h : v.Plain) : 0 < (dumpsValue v).length := by
  obtain ⟨c,cs,hcs,-⟩ := dumpsValue_head h
  simp [hcs]

theorem readsBack (n : ℕ) : ReadsBack n := by
  induction n with
  | zero =>
    refine ⟨?_,?_,?_⟩
    · intro v r hv _ hn
      have := dumpsValue_pos hv
      omega
    · intro v l r hv _ hn
      have := dumpsValue_pos hv
      omega
    · intro k v kvs r _ _ hn
      omega
  | succ n ih => exact ⟨readsBack_value ih,readsBack_elements ih,readsBack_members ih⟩

/-- `json.loads` reads back what `json.dumps` has written. -/
theorem loads_dumps {v : Value} (h : v.Plain) : loads (dumps v) = some v := by
  have hread := (readsBack (dumpsValue v).length).value v [] h stops_nil le_rfl
  have hskip := skip_dumpsValue h []
  rw [List.append_nil] at hread hskip
  unfold loads dumps
  rw [String.toList_ofList, hskip, hread]
  rfl

/-! ## Keys of what is read -/

/-- A value that was read somewhere in a text. -/
def Read (v : Value) : Prop := ∃ n cs r, parseValue n cs = some (v,r)

theorem mem_dictOf {kvs : List (String × Value)} : ((dictOf kvs).map Prod.fst).Nodup ∧ ∀ p ∈ dictOf kvs, p ∈ kvs := by
  induction kvs using List.reverseRecOn with
  | nil => exact ⟨List.nodup_nil,fun p hp => hp⟩
  | append_singleton kvs q ih =>
    have hstep : dictOf (kvs ++ [q]) = OrderedDict.setItems q.1 q.2 (dictOf kvs) := List.foldl_append ..
    rw [hstep]
    refine ⟨(OrderedDict.set ⟨dictOf kvs,ih.1⟩ q.1 q.2).nodup,fun p hp => ?_⟩
    rcases OrderedDict.mem_setItems ih.1 hp with rfl | ⟨hp,-⟩
    · exact List.mem_append_right _ (List.mem_singleton_self q)
    · exact List.mem_append_left _ (ih.2 p hp)

theorem parseMembers_read {n : ℕ} {cs r : List Char} {l : List (String × Value)} (h : parseMembers n cs = some (l,r)) :
    ∀ p ∈ l, Read p.2 := by
  induction n generalizing cs l r with
  | zero => cases h
  | succ n ih =>
    unfold parseMembers at h
    split at h
    · obtain ⟨k,-,h⟩ := Option.bind_eq_some_iff.mp h
      split at h
      · obtain ⟨⟨v,r'⟩,hv,h⟩ := Option.bind_eq_some_iff.mp h
        split at h
        · cases h
          intro p hp
          rw [List.mem_singleton.mp hp]
          exact ⟨_,_,_,hv⟩
        · obtain ⟨⟨rest,r''⟩,hrest,heq⟩ := Option.map_eq_some_iff.mp h
          cases heq
          intro p hp
          rcases List.mem_cons.mp hp with rfl | hp
          · exact ⟨_,_,_,hv⟩
          · exact ih hrest p hp
        · cases h
      · cases h
    · cases h

theorem stringValue_ne_obj (units : List ℕ) (kvs : List (String × Value)) : stringValue units ≠ .obj kvs := by
  unfold stringValue
  split <;> exact fun h => Value.noConfusion h

theorem parseNumber_ne_obj {cs r : List Char} {kvs : List (String × Value)} : parseNumber cs ≠ some (.obj kvs,r) := by
  intro h
  unfold parseNumber at h
  dsimp only at h
  split at h
  · cases h
  · have hv := (Prod.mk.inj (Option.some.inj h)).1
    split at hv <;> cases hv

theorem parseLiteral_ne_obj {cs r : List Char} {kvs : List (String × Value)} : parseLiteral cs ≠ some (.obj kvs,r) := by
  intro h
  obtain ⟨p,hp,hv⟩ := List.exists_of_findSome?_eq_some h
  split at hv
  · have heq := (Prod.mk.inj (Option.some.inj hv)).1
    simp only [literals, List.mem_cons, List.not_mem_nil, or_false] at hp
    rcases hp with rfl | rfl | rfl | rfl | rfl | rfl <;> cases heq
  · cases hv

/-- An object that was read has distinct keys, and its values were read. -/
theorem Read.obj {kvs : List (String × Value)} (h : Read (.obj kvs)) : (kvs.map Prod.fst).Nodup ∧ ∀ p ∈ kvs, Read p.2 := by
  obtain ⟨n,cs,r,h⟩ := h
  cases n with
  | zero => cases h
  | succ n =>
    unfold parseValue at h
    split at h
    · obtain ⟨p,-,heq⟩ := Option.map_eq_some_iff.mp h
      exact absurd (Prod.mk.inj heq).1 (stringValue_ne_obj _ _)
    · split at h
      · cases h
      · obtain ⟨p,-,heq⟩ := Option.map_eq_some_iff.mp h
        cases heq
    · split at h
      · cases h
        exact ⟨List.nodup_nil,fun p hp => absurd hp List.not_mem_nil⟩
      · obtain ⟨⟨l,r'⟩,hl,heq⟩ := Option.map_eq_some_iff.mp h
        cases heq
        exact ⟨mem_dictOf.1,fun p hp => parseMembers_read hl p (mem_dictOf.2 p hp)⟩
    · cases hlit : parseLiteral cs with
      | some p =>
        rw [hlit] at h
        cases h
        exact absurd hlit parseLiteral_ne_obj
      | none =>
        rw [hlit] at h
        exact absurd h parseNumber_ne_obj

end Foundation.Json
