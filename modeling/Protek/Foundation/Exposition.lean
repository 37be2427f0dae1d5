import Mathlib.Data.List.Basic
import Mathlib.Data.List.TakeWhile
import Protek.Foundation.LineEdit

/-! # The Prometheus text format

A payload is a sequence of lines: help and type comments, and samples with labels. The
values of the labels may hold any character; the backslash, the quote and the line feed
are written behind a backslash. What is written by these rules is read back as it was.
-/
namespace Foundation.Exposition

structure Sample where
  name : String
  labels : List (String × String)
  value : String
  timestamp : Option String := none
  deriving DecidableEq, Repr

inductive Item
  | help (name text : String)
  | kind (name type : String)
  | comment
  | sample (s : Sample)
  deriving DecidableEq, Repr

/-! ## Reading -/

def blank (c : Char) : Bool := c = ' ' || c = '\t'

def nameStart (c : Char) : Bool := c.isAlpha || c = '_' || c = ':'

def nameChar (c : Char) : Bool := nameStart c || c.isDigit

def trim (cs : List Char) : List Char := cs.dropWhile blank

/-- The characters up to the next blank, and what follows the blanks. -/
def word (cs : List Char) : String × List Char := (String.ofList (cs.takeWhile (fun c => !blank c)),trim (cs.dropWhile (fun c => !blank c)))

def name (cs : List Char) : Option (String × List Char) :=
  if (cs.head?.map nameStart) = some true then some (String.ofList (cs.takeWhile nameChar),cs.dropWhile nameChar) else none

def after (c : Char) (cs : List Char) : Option (List Char) := if cs.head? = some c then some cs.tail else none

/-- The character that is meant by the one behind a backslash. -/
def unescape (c : Char) : Option Char :=
  if c = '\x5c' then some '\x5c' else if c = '\x22' then some '\x22' else if c = 'n' then some '\n' else none

/-- A value up to its closing quote, and what follows; `true` is the state behind a backslash. -/
def quoted : Bool → List Char → Option (List Char × List Char)
  | _, [] => none
  | true, c :: rest => do
    let d ← unescape c
    let (value,rest) ← quoted false rest
    return (d :: value,rest)
  | false, c :: rest =>
    if c = '\x22' then some ([],rest)
    else if c = '\x5c' then quoted true rest
    else (quoted false rest).map (fun r => (c :: r.1,r.2))

def label (cs : List Char) : Option ((String × String) × List Char) := do
  let (key,rest) ← name cs
  let (value,rest) ← quoted false (← after '\x22' (trim (← after '=' (trim rest))))
  return ((key,String.ofList value),trim rest)

/-- The labels up to the brace that closes them; the number bounds the recursion. -/
def labels : ℕ → List Char → Option (List (String × String) × List Char)
  | 0, cs => (after '\x7d' (trim cs)).map (fun rest => ([],rest))
  | n + 1, cs =>
    if (trim cs).head? = some '\x7d' then some ([],(trim cs).tail)
    else do
      let (l,rest) ← label (trim cs)
      if rest.head? = some ',' then
        let (ls,rest) ← labels n rest.tail
        return (l :: ls,rest)
      else return ([l],← after '\x7d' rest)

def labelSet (cs : List Char) : Option (List (String × String) × List Char) :=
  if cs.head? = some '\x7b' then labels cs.length cs.tail else some ([],cs)

def readSample (cs : List Char) : Option Sample := do
  let (name,rest) ← name cs
  let (labels,rest) ← labelSet (trim rest)
  let (value,rest) := word (trim rest)
  if value = "" then none
  else if rest = [] then return ⟨name,labels,value,none⟩
  else if (word rest).2 = [] then return ⟨name,labels,value,some (word rest).1⟩
  else none

/-- In a help text only the backslash and the line feed are written behind a backslash. -/
def unescapeHelp : List Char → List Char
  | '\x5c' :: '\x5c' :: rest => '\x5c' :: unescapeHelp rest
  | '\x5c' :: 'n' :: rest => '\n' :: unescapeHelp rest
  | c :: rest => c :: unescapeHelp rest
  | [] => []

def readComment (cs : List Char) : Item :=
  let (keyword,rest) := word (trim cs)
  let (name,rest) := word rest
  if keyword = "HELP" then .help name (String.ofList (unescapeHelp rest))
  else if keyword = "TYPE" then .kind name (word rest).1
  else .comment

def readLine (cs : List Char) : Option Item :=
  if (trim cs).head? = some '#' then some (readComment (trim cs).tail) else (readSample (trim cs)).map Item.sample

/-- The items of a payload; empty lines are passed over. -/
def read (text : String) : Option (List Item) := ((text.toList.splitOn '\n').filter (fun l => trim l ≠ [])).mapM readLine

/-! ## Writing -/

def escape (c : Char) : List Char :=
  if c = '\x5c' then ['\x5c','\x5c'] else if c = '\x22' then ['\x5c','\x22'] else if c = '\n' then ['\x5c','n'] else [c]

def labelText (l : String × String) : List Char := l.1.toList ++ '=' :: '\x22' :: (l.2.toList.flatMap escape ++ ['\x22'])

def labelsText (ls : List (String × String)) : List Char :=
  if ls = [] then [] else '\x7b' :: ([','].intercalate (ls.map labelText) ++ ['\x7d'])

def Item.text : Item → List Char
  | .help name text => "# HELP ".toList ++ name.toList ++ ' ' :: text.toList
  | .kind name k => "# TYPE ".toList ++ name.toList ++ ' ' :: k.toList
  | .comment => ['#']
  | .sample s => s.name.toList ++ labelsText s.labels ++ ' ' :: s.value.toList

def IsName (s : String) : Prop := (s.toList.head?.map nameStart) = some true ∧ ∀ c ∈ s.toList, nameChar c = true

/-- A text that is one word. -/
def IsWord (s : String) : Prop := s ≠ "" ∧ ∀ c ∈ s.toList, blank c = false ∧ c ≠ '\n'

/-- A text that stands where a number does. -/
def IsValue (s : String) : Prop := IsWord s ∧ s.toList.head? ≠ some '\x7b'

/-- A text that a comment keeps as it is. -/
def IsNote (s : String) : Prop := (s.toList.head?.map blank) = some false ∧ '\x5c' ∉ s.toList ∧ '\n' ∉ s.toList

def Item.WellFormed : Item → Prop
  | .help name text => IsName name ∧ IsNote text
  | .kind name k => IsName name ∧ IsWord k
  | .comment => True
  | .sample s => IsName s.name ∧ (∀ l ∈ s.labels, IsName l.1) ∧ IsValue s.value ∧ s.timestamp = none

/-! ## Characters -/

theorem trim_of_head {c : Char} {cs : List Char} (h : blank c = false) : trim (c :: cs) = c :: cs :=
  List.dropWhile_cons_of_neg (by simp [h])

theorem not_blank_of_nameChar {c : Char} (h : nameChar c = true) : blank c = false := by
  rw [blank, Bool.or_eq_false_iff, decide_eq_false_iff_not, decide_eq_false_iff_not]
  constructor
  · rintro rfl
    exact absurd h (by decide)
  · rintro rfl
    exact absurd h (by decide)

theorem ne_newline_of_nameChar {c : Char} (h : nameChar c = true) : c ≠ '\n' := by
  rintro rfl
  exact absurd h (by decide)

theorem IsName.ne_nil {s : String} (h : IsName s) : s.toList ≠ [] := by
  intro hnil
  have := h.1
  rw [hnil] at this
  cases this

theorem takeWhile_append_stop {p : Char → Bool} {front rest : List Char} (h : ∀ c ∈ front, p c = true)
    (hstop : ∀ c, rest.head? = some c → p c = false) : (front ++ rest).takeWhile p = front ∧ (front ++ rest).dropWhile p = rest := by
  rw [List.takeWhile_append_of_pos h, List.dropWhile_append_of_pos h]
  cases rest with
  | nil => exact ⟨List.append_nil _,rfl⟩
  | cons c rest =>
    have hc := hstop c rfl
    rw [List.takeWhile_cons_of_neg (by simp [hc]), List.dropWhile_cons_of_neg (by simp [hc]), List.append_nil]
    exact ⟨rfl,rfl⟩

theorem name_append {s : String} {rest : List Char} (h : IsName s) (hstop : ∀ c, rest.head? = some c → nameChar c = false) :
    name (s.toList ++ rest) = some (s,rest) := by
  obtain ⟨htake,hdrop⟩ := takeWhile_append_stop h.2 hstop
  have hhead : (s.toList ++ rest).head? = s.toList.head? := by
    rw [List.head?_append]
    exact Option.or_of_isSome (List.isSome_head? .. |>.mpr h.ne_nil)
  unfold name
  rw [hhead, if_pos h.1, htake, hdrop, String.ofList_toList]

theorem word_append {s : String} {rest : List Char} (h : IsWord s) (hstop : ∀ c, rest.head? = some c → blank c = true) :
    word (s.toList ++ rest) = (s,trim rest) := by
  obtain ⟨htake,hdrop⟩ := @takeWhile_append_stop (fun c => !blank c) s.toList rest (fun c hc => by simp [(h.2 c hc).1])
    (fun c hc => by simp [hstop c hc])
  rw [word, htake, hdrop, String.ofList_toList]

theorem word_self {s : String} (h : IsWord s) : word s.toList = (s,[]) := by
  have := @word_append s [] h (by simp)
  rwa [List.append_nil] at this

theorem isWord_of_all {s : String} (h : (s ≠ "" && s.toList.all (fun c => !blank c && c ≠ '\n')) = true) : IsWord s := by
  obtain ⟨hne,hall⟩ := (Bool.and_eq_true _ _).mp h
  refine ⟨of_decide_eq_true hne,fun c hc => ?_⟩
  obtain ⟨hblank,hline⟩ := (Bool.and_eq_true _ _).mp (List.all_eq_true.mp hall c hc)
  exact ⟨(Bool.not_eq_true' _).mp hblank,of_decide_eq_true hline⟩

theorem IsName.isWord {s : String} (h : IsName s) : IsWord s :=
  ⟨fun hs => h.ne_nil (by rw [hs]; rfl),fun c hc => ⟨not_blank_of_nameChar (h.2 c hc),ne_newline_of_nameChar (h.2 c hc)⟩⟩

theorem IsWord.head {s : String} (h : IsWord s) : ∃ c cs, s.toList = c :: cs ∧ blank c = false := by
  cases hs : s.toList with
  | nil => exact absurd (String.toList_inj.mp hs) h.1
  | cons c cs => exact ⟨c,cs,rfl,(h.2 c (by rw [hs]; exact List.mem_cons_self)).1⟩

theorem trim_word {s : String} (h : IsWord s) (rest : List Char) : trim (s.toList ++ rest) = s.toList ++ rest := by
  obtain ⟨c,cs,hs,hc⟩ := h.head
  rw [hs, List.cons_append]
  exact trim_of_head hc

/-! ## Values and labels -/

theorem quoted_escape (cs rest : List Char) : quoted false (cs.flatMap escape ++ '\x22' :: rest) = some (cs,rest) := by
  induction cs with
  | nil => rfl
  | cons c cs ih =>
    rw [List.flatMap_cons, List.append_assoc]
    by_cases hback : c = '\x5c'
    · subst hback
      simp [escape, quoted, unescape, ih]
    by_cases hquote : c = '\x22'
    · subst hquote
      simp [escape, quoted, unescape, ih]
    by_cases hline : c = '\n'
    · subst hline
      simp [escape, quoted, unescape, ih]
    · simp [escape, quoted, hback, hquote, hline, ih]

theorem not_newline_escape {c d : Char} (h : d ∈ escape c) : d ≠ '\n' := by
  have hpair : ∀ b : Char, b ≠ '\n' → d ∈ ['\x5c',b] → d ≠ '\n' := by
    intro b hb hd
    rcases List.mem_cons.mp hd with rfl | hd
    · decide
    · rw [List.mem_singleton.mp hd]
      exact hb
  unfold escape at h
  split_ifs at h with hback hquote hline
  · exact hpair _ (by decide) h
  · exact hpair _ (by decide) h
  · exact hpair _ (by decide) h
  · rw [List.mem_singleton.mp h]
    exact hline

theorem label_append {l : String × String} (h : IsName l.1) {c : Char} {rest : List Char} (hc : blank c = false) :
    label (labelText l ++ c :: rest) = some (l,c :: rest) := by
  have htext : labelText l ++ c :: rest = l.1.toList ++ '=' :: '\x22' :: (l.2.toList.flatMap escape ++ '\x22' :: c :: rest) := by
    simp [labelText]
  have hstop : ∀ d, ('=' :: '\x22' :: (l.2.toList.flatMap escape ++ '\x22' :: c :: rest)).head? = some d → nameChar d = false := by
    intro d hd
    rw [← Option.some_inj.mp hd]
    decide
  have heq : after '=' (trim ('=' :: '\x22' :: (l.2.toList.flatMap escape ++ '\x22' :: c :: rest))) =
      some ('\x22' :: (l.2.toList.flatMap escape ++ '\x22' :: c :: rest)) := by
    rw [trim_of_head (by decide)]
    rfl
  have hquote : after '\x22' (trim ('\x22' :: (l.2.toList.flatMap escape ++ '\x22' :: c :: rest))) =
      some (l.2.toList.flatMap escape ++ '\x22' :: c :: rest) := by
    rw [trim_of_head (by decide)]
    rfl
  unfold label
  rw [htext, name_append h hstop]
  simp only [Option.bind_eq_bind, Option.bind_some, heq, hquote, quoted_escape, trim_of_head hc, String.ofList_toList]
  rfl

theorem head_labelText {l : String × String} (h : IsName l.1) (rest : List Char) :
    ∃ c cs, labelText l ++ rest = c :: cs ∧ blank c = false ∧ c ≠ '\x7d' := by
  cases hl : l.1.toList with
  | nil => exact absurd hl h.ne_nil
  | cons c cs =>
    have hc : nameChar c = true := h.2 c (by rw [hl]; exact List.mem_cons_self)
    refine ⟨c,_,by rw [labelText, hl]; rfl,not_blank_of_nameChar hc,?_⟩
    rintro rfl
    exact absurd hc (by decide)

theorem labels_append {ls : List (String × String)} (hne : ls ≠ []) (h : ∀ l ∈ ls, IsName l.1) {n : ℕ} (hn : ls.length ≤ n)
    (rest : List Char) : labels n ([','].intercalate (ls.map labelText) ++ '\x7d' :: rest) = some (ls,rest) := by
  induction ls generalizing n with
  | nil => exact absurd rfl hne
  | cons l ls ih =>
    obtain ⟨m,rfl⟩ : ∃ m, n = m + 1 := Nat.exists_eq_succ_of_ne_zero (by simp only [List.length_cons] at hn; omega)
    have hl := h l List.mem_cons_self
    cases ls with
    | nil =>
      have htext : [','].intercalate ([l].map labelText) ++ '\x7d' :: rest = labelText l ++ '\x7d' :: rest := by simp
      obtain ⟨c,cs,hhead,hblank,hbrace⟩ := head_labelText hl ('\x7d' :: rest)
      have htrim : trim (labelText l ++ '\x7d' :: rest) = labelText l ++ '\x7d' :: rest := by
        rw [hhead]
        exact trim_of_head hblank
      rw [htext, labels, htrim, if_neg (by rw [hhead]; simpa using hbrace), label_append hl (by decide)]
      rfl
    | cons l' ls =>
      have htext : [','].intercalate ((l :: l' :: ls).map labelText) ++ '\x7d' :: rest =
          labelText l ++ ',' :: ([','].intercalate ((l' :: ls).map labelText) ++ '\x7d' :: rest) := by
        simp [List.intercalate_cons_cons]
      obtain ⟨c,cs,hhead,hblank,hbrace⟩ := head_labelText hl (',' :: ([','].intercalate ((l' :: ls).map labelText) ++ '\x7d' :: rest))
      have htrim : trim (labelText l ++ ',' :: ([','].intercalate ((l' :: ls).map labelText) ++ '\x7d' :: rest)) =
          labelText l ++ ',' :: ([','].intercalate ((l' :: ls).map labelText) ++ '\x7d' :: rest) := by
        rw [hhead]
        exact trim_of_head hblank
      have hrest := ih (List.cons_ne_nil _ _) (fun x hx => h x (List.mem_cons_of_mem _ hx)) (n := m)
        (by simp only [List.length_cons] at hn ⊢; omega)
      rw [htext, labels, htrim, if_neg (by rw [hhead]; simpa using hbrace), label_append hl (by decide)]
      simp only [Option.bind_eq_bind, Option.bind_some, List.head?_cons, List.tail_cons, if_true, hrest]
      rfl

/-! ## Lines -/

theorem length_le_intercalate {sep : List Char} {ls : List (List Char)} (h : ∀ l ∈ ls, l ≠ []) :
    ls.length ≤ (sep.intercalate ls).length := by
  induction ls with
  | nil => exact Nat.zero_le _
  | cons l ls ih =>
    have hl := List.length_pos_iff.mpr (h l List.mem_cons_self)
    have hrest := ih (fun x hx => h x (List.mem_cons_of_mem _ hx))
    cases ls with
    | nil =>
      rw [List.intercalate_singleton]
      exact hl
    | cons l' ls =>
      rw [List.intercalate_cons_cons, List.length_append, List.length_append]
      simp only [List.length_cons] at hrest ⊢
      omega

theorem labelText_ne_nil (l : String × String) : labelText l ≠ [] := by simp [labelText]

theorem labelSet_append {ls : List (String × String)} (h : ∀ l ∈ ls, IsName l.1) {rest : List Char} (hrest : rest.head? = some ' ') :
    labelSet (labelsText ls ++ rest) = some (ls,rest) := by
  unfold labelsText labelSet
  split_ifs with hnil hbrace hbrace
  · rw [List.nil_append, hrest] at hbrace
    exact absurd (Option.some_inj.mp hbrace) (by decide)
  · rw [hnil, List.nil_append]
  · have hlen : ls.length ≤ ('\x7b' :: ([','].intercalate (ls.map labelText) ++ ['\x7d']) ++ rest).length := by
      have hpieces := @length_le_intercalate [','] (ls.map labelText) (by
        intro l hl
        obtain ⟨p,-,rfl⟩ := List.mem_map.mp hl
        exact labelText_ne_nil p)
      rw [List.length_map] at hpieces
      simp only [List.cons_append, List.length_cons, List.length_append]
      omega
    have htail : ('\x7b' :: ([','].intercalate (ls.map labelText) ++ ['\x7d']) ++ rest).tail =
        [','].intercalate (ls.map labelText) ++ '\x7d' :: rest := by simp
    rw [htail]
    exact labels_append hnil h hlen rest
  · exact absurd rfl hbrace

theorem head_labelsText (ls : List (String × String)) {rest : List Char} (hrest : rest.head? = some ' ') :
    ∀ c, (labelsText ls ++ rest).head? = some c → nameChar c = false := by
  intro c hc
  unfold labelsText at hc
  split_ifs at hc
  · rw [List.nil_append, hrest] at hc
    rw [← Option.some_inj.mp hc]
    decide
  · rw [← Option.some_inj.mp hc]
    decide

theorem trim_labelsText {ls : List (String × String)} {value : String} :
    trim (labelsText ls ++ ' ' :: value.toList) = if ls = [] then trim value.toList else labelsText ls ++ ' ' :: value.toList := by
  unfold labelsText
  split_ifs
  · rfl
  · exact trim_of_head (by decide)

theorem readSample_text {s : Sample} (hname : IsName s.name) (hlabels : ∀ l ∈ s.labels, IsName l.1) (hvalue : IsValue s.value)
    (htime : s.timestamp = none) : readSample (Item.sample s).text = some s := by
  obtain ⟨n,ls,v,time⟩ := s
  dsimp only at hname hlabels hvalue htime
  subst htime
  have hstop := @head_labelsText ls (' ' :: v.toList) rfl
  obtain ⟨hvalue,hbrace⟩ := hvalue
  have htrim : trim v.toList = v.toList := by
    have := trim_word hvalue []
    rwa [List.append_nil] at this
  have hset : labelSet (trim (labelsText ls ++ ' ' :: v.toList)) = some (ls,if ls = [] then v.toList else ' ' :: v.toList) := by
    rw [trim_labelsText]
    split_ifs with hnil
    · rw [htrim, hnil, labelSet, if_neg hbrace]
    · exact labelSet_append hlabels rfl
  have hword : trim (if ls = [] then v.toList else ' ' :: v.toList) = v.toList := by
    split_ifs
    · exact htrim
    · exact htrim
  have htext : (Item.sample ⟨n,ls,v,none⟩).text = n.toList ++ (labelsText ls ++ ' ' :: v.toList) := List.append_assoc ..
  unfold readSample
  rw [htext, name_append hname hstop]
  simp only [Option.bind_eq_bind, Option.bind_some, hset, hword, word_self hvalue]
  rw [if_neg hvalue.1]
  rfl

theorem unescapeHelp_eq {cs : List Char} (h : '\x5c' ∉ cs) : unescapeHelp cs = cs := by
  induction cs with
  | nil => rfl
  | cons c cs ih =>
    rw [List.mem_cons, not_or] at h
    rw [unescapeHelp, ih h.2]
    · exact fun _ heq _ => h.1 heq.symm
    · exact fun _ heq _ => h.1 heq.symm

theorem IsNote.trim {s : String} (h : IsNote s) : trim s.toList = s.toList := by
  obtain ⟨hhead,-⟩ := h
  cases hs : s.toList with
  | nil => rfl
  | cons c cs =>
    rw [hs] at hhead
    exact trim_of_head (Option.some_inj.mp hhead)

/-- The first two words of a comment. -/
theorem readComment_eq {keyword name : String} {rest : List Char} (hk : IsWord keyword) (hn : IsWord name) :
    readComment (' ' :: (keyword.toList ++ ' ' :: (name.toList ++ ' ' :: rest))) =
      if keyword = "HELP" then .help name (String.ofList (unescapeHelp (trim rest)))
      else if keyword = "TYPE" then .kind name (word (trim rest)).1 else .comment := by
  have hstop : ∀ cs : List Char, ∀ c, (' ' :: cs).head? = some c → blank c = true := by
    intro cs c hc
    rw [← Option.some_inj.mp hc]
    decide
  have htrim : Exposition.trim (' ' :: (keyword.toList ++ ' ' :: (name.toList ++ ' ' :: rest))) =
      keyword.toList ++ ' ' :: (name.toList ++ ' ' :: rest) := trim_word hk _
  have hsecond : Exposition.trim (' ' :: (name.toList ++ ' ' :: rest)) = name.toList ++ ' ' :: rest := trim_word hn _
  have hlast : Exposition.trim (' ' :: rest) = Exposition.trim rest := rfl
  unfold readComment
  rw [htrim, word_append hk (hstop _)]
  dsimp only
  rw [hsecond, word_append hn (hstop _), hlast]

theorem readLine_text {i : Item} (h : i.WellFormed) : readLine i.text = some i := by
  cases i with
  | help name text =>
    obtain ⟨hname,htext⟩ := h
    have hline : (Item.help name text).text = '#' :: ' ' :: ("HELP".toList ++ ' ' :: (name.toList ++ ' ' :: text.toList)) := rfl
    have hword : IsWord "HELP" := isWord_of_all (by decide +kernel)
    rw [readLine, hline, trim_of_head (by decide), List.head?_cons, if_pos rfl, List.tail_cons, readComment_eq hword hname.isWord,
      if_pos rfl, htext.trim, unescapeHelp_eq htext.2.1, String.ofList_toList]
  | kind name k =>
    obtain ⟨hname,hk⟩ := h
    have hline : (Item.kind name k).text = '#' :: ' ' :: ("TYPE".toList ++ ' ' :: (name.toList ++ ' ' :: k.toList)) := rfl
    have hword : IsWord "TYPE" := isWord_of_all (by decide +kernel)
    have htrim : trim k.toList = k.toList := by
      have := trim_word hk []
      rwa [List.append_nil] at this
    rw [readLine, hline, trim_of_head (by decide), List.head?_cons, if_pos rfl, List.tail_cons, readComment_eq hword hname.isWord,
      if_neg (by decide), if_pos rfl, htrim, word_self hk]
  | comment => rfl
  | sample s =>
    obtain ⟨hname,hlabels,hvalue,htime⟩ := h
    obtain ⟨c,cs,hs,hc⟩ := hname.isWord.head
    have hhead : (Item.sample s).text = c :: (cs ++ (labelsText s.labels ++ ' ' :: s.value.toList)) := by
      change s.name.toList ++ labelsText s.labels ++ ' ' :: s.value.toList = _
      rw [hs, List.append_assoc, List.cons_append]
    have hhash : c ≠ '#' := by
      rintro rfl
      have := hname.2 '#' (by rw [hs]; exact List.mem_cons_self)
      exact absurd this (by decide)
    have htrim : trim (Item.sample s).text = (Item.sample s).text := by
      rw [hhead]
      exact trim_of_head hc
    rw [readLine, htrim, if_neg (by rw [hhead]; simpa using hhash), readSample_text hname hlabels hvalue htime]
    rfl

/-! ## Payloads -/

/-- The lines of the items, and a last line feed. -/
def write (items : List Item) : String := "\n".intercalate (items.map (fun i => String.ofList i.text) ++ [""])

theorem not_newline_labelsText {ls : List (String × String)} (h : ∀ l ∈ ls, IsName l.1) : '\n' ∉ labelsText ls := by
  intro hmem
  unfold labelsText at hmem
  split_ifs at hmem
  · exact List.not_mem_nil hmem
  · rcases List.mem_cons.mp hmem with heq | hmem
    · exact absurd heq (by decide)
    · rcases List.mem_append.mp hmem with hmem | hmem
      · rcases LineEdit.mem_intercalate hmem with hmem | ⟨l,hl,hmem⟩
        · exact absurd hmem (by decide)
        · obtain ⟨p,hp,rfl⟩ := List.mem_map.mp hl
          unfold labelText at hmem
          rcases List.mem_append.mp hmem with hmem | hmem
          · exact ne_newline_of_nameChar ((h p hp).2 _ hmem) rfl
          · rcases List.mem_cons.mp hmem with heq | hmem
            · exact absurd heq (by decide)
            rcases List.mem_cons.mp hmem with heq | hmem
            · exact absurd heq (by decide)
            rcases List.mem_append.mp hmem with hmem | hmem
            · obtain ⟨c,-,hc⟩ := List.mem_flatMap.mp hmem
              exact not_newline_escape hc rfl
            · exact absurd hmem (by decide)
      · exact absurd hmem (by decide)

theorem not_newline_text {i : Item} (h : i.WellFormed) : '\n' ∉ i.text := by
  intro hmem
  cases i with
  | help name text =>
    obtain ⟨hname,-,-,htext⟩ := h
    rcases List.mem_append.mp hmem with hmem | hmem
    · rcases List.mem_append.mp hmem with hmem | hmem
      · exact absurd hmem (by decide +kernel)
      · exact ne_newline_of_nameChar (hname.2 _ hmem) rfl
    · rcases List.mem_cons.mp hmem with heq | hmem
      · exact absurd heq (by decide)
      · exact htext hmem
  | kind name k =>
    obtain ⟨hname,hk⟩ := h
    rcases List.mem_append.mp hmem with hmem | hmem
    · rcases List.mem_append.mp hmem with hmem | hmem
      · exact absurd hmem (by decide +kernel)
      · exact ne_newline_of_nameChar (hname.2 _ hmem) rfl
    · rcases List.mem_cons.mp hmem with heq | hmem
      · exact absurd heq (by decide)
      · exact (hk.2 _ hmem).2 rfl
  | comment => exact absurd hmem (by decide)
  | sample s =>
    obtain ⟨hname,hlabels,hvalue,-⟩ := h
    rcases List.mem_append.mp hmem with hmem | hmem
    · rcases List.mem_append.mp hmem with hmem | hmem
      · exact ne_newline_of_nameChar (hname.2 _ hmem) rfl
      · exact not_newline_labelsText hlabels hmem
    · rcases List.mem_cons.mp hmem with heq | hmem
      · exact absurd heq (by decide)
      · exact (hvalue.1.2 _ hmem).2 rfl

theorem trim_text_ne_nil {i : Item} (h : i.WellFormed) : trim i.text ≠ [] := by
  intro hnil
  have hread := readLine_text h
  rw [readLine, hnil] at hread
  cases hread

/-- What is written is read back, whatever the labels hold. -/
theorem read_write {items : List Item} (h : ∀ i ∈ items, i.WellFormed) : read (write items) = some items := by
  have hpieces : (items.map (fun i => String.ofList i.text) ++ [""]).map String.toList = items.map Item.text ++ [[]] := by
    rw [List.map_append, List.map_map]
    exact congrArg (· ++ [[]]) (List.map_congr_left (fun i _ => String.toList_ofList))
  have hsplit : (write items).toList.splitOn '\n' = items.map Item.text ++ [[]] := by
    rw [write, String.toList_intercalate, hpieces]
    refine List.splitOn_intercalate '\n' (fun l hl => ?_) (by simp)
    rcases List.mem_append.mp hl with hl | hl
    · obtain ⟨i,hi,rfl⟩ := List.mem_map.mp hl
      exact not_newline_text (h i hi)
    · rw [List.mem_singleton.mp hl]
      exact List.not_mem_nil
  have hfilter : (items.map Item.text ++ [[]]).filter (fun l => trim l ≠ []) = items.map Item.text := by
    rw [List.filter_append]
    have hkeep : (items.map Item.text).filter (fun l => trim l ≠ []) = items.map Item.text := by
      refine List.filter_eq_self.mpr (fun l hl => decide_eq_true ?_)
      obtain ⟨i,hi,rfl⟩ := List.mem_map.mp hl
      exact trim_text_ne_nil (h i hi)
    rw [hkeep]
    exact List.append_nil _
  rw [read, hsplit, hfilter]
  clear hpieces hsplit hfilter
  induction items with
  | nil => rfl
  | cons i items ih =>
    rw [List.map_cons, List.mapM_cons, readLine_text (h i List.mem_cons_self), ih (fun x hx => h x (List.mem_cons_of_mem _ hx))]
    rfl

end Foundation.Exposition
