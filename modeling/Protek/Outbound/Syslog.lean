import Protek.Foundation.Json
import Protek.Foundation.Rfc5424

/-! # The syslog line of an event

Six values of the payload go into one element of structured data, with their quotes
replaced, and the payload follows as JSON.
-/
namespace Protek.Outbound
open Foundation Foundation.Clock Foundation.Rfc5424

/-! ## The line -/

/-- The name of the host and the id of the process come from the system. -/
structure SyslogForwarder where
  facility : ℤ
  hostname : String
  procid : ℕ
  hostname_ok : hostname.toList ≠ [] ∧ hostname.toList.length ≤ 255 ∧ hostname.toList.all printable = true
  procid_lt : procid < 2 ^ 31

def appName : String := "protek"

abbrev Payload := List (String × Json.Value)

def sdKeys : List String := ["ip","scenario","origin","source","actor","bouncer"]

def swapQuotes (s : String) : String := String.ofList (s.toList.map (fun c => if c = '\x22' then '\x27' else c))

def msgid (eventType : String) : String := String.ofList (eventType.toList.map (fun c => if c = ' ' then '_' else c))

section
variable (strOf : Json.Value → String)

/-- `str(v)`; for what is no text it is a parameter. -/
def str : Json.Value → String
  | .str s => s
  | v => strOf v

/-- The values that the element names: those that are neither null nor the empty text. -/
def sdPairs (payload : Payload) : List (String × String) :=
  sdKeys.filterMap (fun k =>
    match payload.lookup k with
    | none => none
    | some .null => none
    | some v => if v matches .str "" then none else some (k,swapQuotes (str strOf v)))

def structuredText (pairs : List (String × String)) : String :=
  if pairs = [] then "-"
  else "[protek@53595 " ++ " ".intercalate (pairs.map (fun p => p.1 ++ "=\x22" ++ p.2 ++ "\x22")) ++ "]"

/-- The line that `send` encodes. -/
def SyslogForwarder.line (fw : SyslogForwarder) (eventType : String) (severity : ℤ) (payload : Payload) (now : Instant) : String :=
  "<" ++ toString (fw.facility * 8 + severity) ++ ">1 " ++ stampText now ++ " " ++ fw.hostname ++ " " ++ appName ++ " " ++
    toString fw.procid ++ " " ++ msgid eventType ++ " " ++ structuredText (sdPairs strOf payload) ++ " " ++ Json.compact (.obj payload)

/-- The line is one message: its element holds the values of the payload, its text is the payload. -/
def Parseable (fw : SyslogForwarder) (eventType : String) (severity : ℤ) (payload : Payload) (now : Instant) : Prop :=
  ∃ header, parse (fw.line strOf eventType severity payload now) =
    some ⟨header,if sdPairs strOf payload = [] then [] else [⟨"protek@53595",sdPairs strOf payload⟩],some (Json.compact (.obj payload))⟩

end

/-! ## What can be read back -/

section
variable {strOf : Json.Value → String} {payload : Payload} {pairs : List (String × String)}

theorem swapQuotes_quote (s : String) : '\x22' ∉ (swapQuotes s).toList := by
  rw [swapQuotes, String.toList_ofList, List.mem_map]
  rintro ⟨c,-,hc⟩
  split_ifs at hc with hquote
  · cases hc
  · exact hquote hc

theorem msgid_space (s : String) : ' ' ∉ (msgid s).toList := by
  rw [msgid, String.toList_ofList, List.mem_map]
  rintro ⟨c,-,hc⟩
  split_ifs at hc with hspace
  · cases hc
  · exact hspace hc

theorem mem_sdPairs {p : String × String} (h : p ∈ sdPairs strOf payload) : NameOk p.1 ∧ '\x22' ∉ p.2.toList := by
  obtain ⟨k,hk,hp⟩ := List.mem_filterMap.mp h
  have hname : ∀ k ∈ sdKeys, NameOk k := by decide
  split at hp
  · cases hp
  · cases hp
  · split_ifs at hp
    obtain rfl := Option.some_inj.mp hp
    exact ⟨hname k hk,swapQuotes_quote _⟩

theorem toList_pair (p : String × String) : (p.1 ++ "=\x22" ++ p.2 ++ "\x22").toList = paramText p := by
  rw [paramText, String.toList_append, String.toList_append, String.toList_append, List.append_assoc, List.append_assoc]
  rfl

/-- The texts of the parameters, each behind a space. -/
theorem toList_pairs (h : pairs ≠ []) :
    ' ' :: (" ".intercalate (pairs.map (fun p => p.1 ++ "=\x22" ++ p.2 ++ "\x22"))).toList = pairs.flatMap (fun p => ' ' :: paramText p) := by
  induction pairs with
  | nil => exact absurd rfl h
  | cons p ps ih =>
    rw [List.flatMap_cons, List.map_cons]
    cases ps with
    | nil => rw [List.map_nil, String.intercalate_singleton, toList_pair, List.flatMap_nil, List.append_nil]
    | cons q ps =>
      rw [String.intercalate_cons_of_ne_nil (by simp), String.toList_append, String.toList_append, toList_pair, ← ih (List.cons_ne_nil _ _),
        List.append_assoc]
      rfl

theorem toList_structuredText (h : pairs ≠ []) : (structuredText pairs).toList = elementText "protek@53595" pairs := by
  rw [structuredText, if_neg h, elementText, ← toList_pairs h, String.toList_append, String.toList_append, List.append_assoc]
  rfl

/-! ## The words of the header -/

variable {fw : SyslogForwarder} {eventType : String} {severity : ℤ} {now : Instant}

def headerWords (fw : SyslogForwarder) (eventType : String) (severity : ℤ) (now : Instant) : List (List Char) :=
  ['<' :: ((toString (fw.facility * 8 + severity)).toList ++ ['>','1']),(stampText now).toList,fw.hostname.toList,appName.toList,
    (toString fw.procid).toList,(msgid eventType).toList]

theorem toList_words (a b c d e f g h : String) :
    ("<" ++ a ++ ">1 " ++ b ++ " " ++ c ++ " " ++ d ++ " " ++ e ++ " " ++ f ++ " " ++ g ++ " " ++ h).toList =
      ['<' :: (a.toList ++ ['>','1']),b.toList,c.toList,d.toList,e.toList,f.toList].flatMap (fun w => w ++ [' ']) ++
        (g.toList ++ ' ' :: h.toList) := by
  simp [String.toList_append]

theorem toList_line : (fw.line strOf eventType severity payload now).toList =
    (headerWords fw eventType severity now).flatMap (fun w => w ++ [' ']) ++
      ((structuredText (sdPairs strOf payload)).toList ++ ' ' :: (Json.compact (.obj payload)).toList) := toList_words _ _ _ _ _ _ _ _

theorem space_toString (z : ℤ) : ' ' ∉ (toString z).toList := by
  cases z with
  | ofNat m =>
    have hlist : (toString (Int.ofNat m)).toList = Nat.toDigits 10 m := Nat.toList_repr
    rw [hlist]
    exact fun hmem => absurd (PyText.isDigit_of_mem_toDigits hmem) (by decide)
  | negSucc m =>
    have hlist : (toString (Int.negSucc m)).toList = '-' :: Nat.toDigits 10 (m + 1) := by
      have htext : toString (Int.negSucc m) = "-" ++ (m + 1).repr := rfl
      rw [htext, String.toList_append, Nat.toList_repr]
      rfl
    rw [hlist, List.mem_cons, not_or]
    exact ⟨by decide,fun hmem => absurd (PyText.isDigit_of_mem_toDigits hmem) (by decide)⟩

theorem space_stampText (now : Instant) : ' ' ∉ (stampText now).toList := by
  have hdate : ' ' ∉ (dateText now).toList := not_mem_dateText (by decide) (by decide) now
  have htime : ' ' ∉ (timeText now).toList := not_mem_timeText (by decide) (by decide) now
  have hfraction : ' ' ∉ (pad 6 (now % second)).toList := not_mem_pad (by decide) _ _
  rw [stampText]
  simp [String.toList_append, hdate, htime, hfraction]

theorem procid_ok (fw : SyslogForwarder) : (toString fw.procid).toList ≠ [] ∧ (toString fw.procid).toList.length ≤ 128 ∧
    (toString fw.procid).toList.all printable = true := by
  have hlist : (toString fw.procid).toList = Nat.toDigits 10 fw.procid := Nat.toList_repr
  have hlength : (Nat.toDigits 10 fw.procid).length ≤ 128 :=
    (Nat.length_toDigits_le_iff (by decide) (by decide)).mpr (fw.procid_lt.trans_le (by decide))
  rw [hlist]
  refine ⟨List.ne_nil_of_length_pos Nat.length_toDigits_pos,hlength,List.all_eq_true.mpr (fun c hc => ?_)⟩
  have hrange := PyText.isDigit_iff.mp (PyText.isDigit_of_mem_toDigits hc)
  rw [printable, Bool.and_eq_true, decide_eq_true_iff, decide_eq_true_iff]
  omega

theorem space_headerWords : ∀ w ∈ headerWords fw eventType severity now, ' ' ∉ w := by
  have hpri : ' ' ∉ '<' :: ((toString (fw.facility * 8 + severity)).toList ++ ['>','1']) := by
    rw [List.mem_cons, List.mem_append, not_or, not_or]
    exact ⟨by decide,space_toString _,by decide⟩
  rw [headerWords]
  refine List.forall_mem_cons.mpr ⟨hpri,List.forall_mem_cons.mpr ⟨space_stampText now,List.forall_mem_cons.mpr ⟨?_,
    List.forall_mem_cons.mpr ⟨by decide,List.forall_mem_cons.mpr ⟨?_,List.forall_mem_cons.mpr ⟨msgid_space eventType,?_⟩⟩⟩⟩⟩⟩
  · exact not_mem_of_printable fw.hostname_ok.2.2
  · exact not_mem_of_printable (procid_ok fw).2.2
  · exact fun _ hw => absurd hw List.not_mem_nil

/-- The priority is in its range, and the event type with its spaces replaced is a field. -/
def HeaderOk (fw : SyslogForwarder) (eventType : String) (severity : ℤ) : Prop :=
  (0 ≤ fw.facility * 8 + severity ∧ fw.facility * 8 + severity ≤ 191) ∧
    (msgid eventType).toList ≠ [] ∧ (msgid eventType).toList.length ≤ 32 ∧ (msgid eventType).toList.all printable = true

theorem headerOk_iff (hnow : now < endOfTime) :
    (readHeader (headerWords fw eventType severity now)).isSome = true ↔ HeaderOk fw eventType severity := by
  rw [headerWords, isSome_readHeader (isSome_timestamp hnow) ((isSome_field (by decide)).mpr fw.hostname_ok) (by decide)
    ((isSome_field (by decide)).mpr (procid_ok fw)), isSome_priVersion, isSome_field (by decide), HeaderOk]

theorem clean_iff {p : String × String} (hquote : '\x22' ∉ p.2.toList) : Clean p ↔ '\x5c' ∉ p.2.toList ∧ ']' ∉ p.2.toList := by
  constructor
  · intro hclean
    exact ⟨fun hmem => (not_escaped (hclean _ hmem)).2.1 rfl,fun hmem => (not_escaped (hclean _ hmem)).2.2 rfl⟩
  · rintro ⟨hslash,hbracket⟩ c hc
    rw [← Bool.not_eq_true, escaped_iff]
    rintro (rfl | rfl | rfl)
    · exact hquote hc
    · exact hslash hc
    · exact hbracket hc

theorem structuredData_line (rest : List Char) (hclean : ∀ p ∈ sdPairs strOf payload, Clean p) :
    structuredData ((structuredText (sdPairs strOf payload)).toList ++ ' ' :: rest) =
      some (if sdPairs strOf payload = [] then [] else [⟨"protek@53595",sdPairs strOf payload⟩],' ' :: rest) := by
  by_cases hnil : sdPairs strOf payload = []
  · rw [hnil]
    rfl
  · rw [toList_structuredText hnil, if_neg hnil]
    exact structuredData_text (by decide) (fun p hp => (mem_sdPairs hp).1) hclean (by rw [List.head?_cons]; decide)

theorem clean_of_line {rest r : List Char} {es : List Element}
    (h : structuredData ((structuredText (sdPairs strOf payload)).toList ++ ' ' :: rest) = some (es,r))
    (hes : es = if sdPairs strOf payload = [] then [] else [⟨"protek@53595",sdPairs strOf payload⟩]) :
    ∀ p ∈ sdPairs strOf payload, Clean p := by
  by_cases hnil : sdPairs strOf payload = []
  · rw [hnil]
    exact fun p hp => absurd hp List.not_mem_nil
  · rw [if_neg hnil] at hes
    rw [toList_structuredText hnil, hes] at h
    exact clean_of_structuredData (by decide) (fun p hp => (mem_sdPairs hp).1) (fun p hp => (mem_sdPairs hp).2) h rfl

/-- The line is read back exactly where its header is one and no value holds a backslash or a closing bracket. -/
theorem parseable_iff (hnow : now < endOfTime) : Parseable strOf fw eventType severity payload now ↔
    HeaderOk fw eventType severity ∧ ∀ p ∈ sdPairs strOf payload, '\x5c' ∉ p.2.toList ∧ ']' ∉ p.2.toList := by
  have hvalues : (∀ p ∈ sdPairs strOf payload, '\x5c' ∉ p.2.toList ∧ ']' ∉ p.2.toList) ↔ ∀ p ∈ sdPairs strOf payload, Clean p :=
    forall₂_congr (fun p hp => (clean_iff (mem_sdPairs hp).2).symm)
  have hline := @toList_line strOf payload fw eventType severity now
  rw [hvalues, Parseable, parse_words rfl space_headerWords hline, ← headerOk_iff hnow]
  constructor
  · rintro ⟨header,h⟩
    obtain ⟨header',hheader,hrest⟩ := Option.bind_eq_some_iff.mp h
    obtain ⟨⟨es,r⟩,hsd,hmsg⟩ := Option.bind_eq_some_iff.mp hrest
    obtain ⟨msg,-,hmessage⟩ := Option.map_eq_some_iff.mp hmsg
    exact ⟨by rw [hheader]; rfl,clean_of_line hsd (Message.mk.inj hmessage).2.1⟩
  · rintro ⟨hheader,hclean⟩
    obtain ⟨header,hheader⟩ := Option.isSome_iff_exists.mp hheader
    have hmessage : message (' ' :: (Json.compact (.obj payload)).toList) = some (some (Json.compact (.obj payload))) := by
      rw [message, if_neg (List.cons_ne_nil _ _), after, List.head?_cons, if_pos rfl, List.tail_cons, Option.map_some, String.ofList_toList]
    refine ⟨header,?_⟩
    rw [hheader, Option.bind_some, structuredData_line _ hclean, Option.bind_some, hmessage]
    rfl

end

/-! ## A scenario with a bracket -/

def localForwarder : SyslogForwarder := ⟨16,"gate",77,by decide,by decide⟩

def scenarioPayload (scenario : String) : Payload := [("ip",.str "192.0.2.1"),("scenario",.str scenario)]

theorem parseable_iff_example :
    Parseable (fun _ => "") localForwarder "decision.created" 5 (scenarioPayload "a \x22quoted\x22 one") 1792067696000001 ↔
      HeaderOk localForwarder "decision.created" 5 ∧ ∀ p ∈ sdPairs (fun _ => "") (scenarioPayload "a \x22quoted\x22 one"),
        '\x5c' ∉ p.2.toList ∧ ']' ∉ p.2.toList := parseable_iff (by decide)

/-- The bracket in the scenario is not escaped, and the line is no message. -/
theorem bracket_not_escaped : HeaderOk localForwarder "decision.created" 5 ∧
    ¬ Parseable (fun _ => "") localForwarder "decision.created" 5 (scenarioPayload "a[0] bf") 1792067696000001 := by
  refine ⟨by unfold HeaderOk; decide,?_⟩
  rintro ⟨header,h⟩
  have hnone : parse (localForwarder.line (fun _ => "") "decision.created" 5 (scenarioPayload "a[0] bf") 1792067696000001) = none := by
    decide +kernel
  rw [hnone] at h
  cases h

end Protek.Outbound
