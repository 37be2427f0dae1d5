import Mathlib.Data.String.Basic
import Protek.Foundation.FromIso
import Protek.Foundation.OrderedDict
import Protek.Foundation.Ranking
import Protek.Foundation.Trace
import Protek.Store.Settings

/-! # Litestream's journal

Each scan reads the journal from its cursor on and reports the error lines. The cursor then
goes to the second after the newest of them, whether that second was over or not.
-/
namespace Protek.Alerts
open Foundation Foundation.Clock Foundation.PyText Protek.Store

/-! ## The journal -/

/-- The offset of the host's zone. -/
structure Zone where
  east : Bool
  hours : ℕ
  minutes : ℕ
  hours_lt : hours < 24
  minutes_lt : minutes < 60

def Zone.text (z : Zone) : String := (if z.east then "+" else "-") ++ pad 2 z.hours ++ pad 2 z.minutes

/-- A line of the unit's journal at a second of the host's wall clock; the numbers tell lines apart. -/
structure Line where
  seq : ℕ
  wallSecond : ℕ
  body : String
  bound : (wallSecond + 1) * second < endOfTime
  deriving DecidableEq

def Line.wall (l : Line) : Instant := l.wallSecond * second

/-- The timestamp of the format `short-iso`. -/
def Line.ts (zone : Zone) (l : Line) : String := dateText l.wall ++ "T" ++ timeText l.wall ++ zone.text

def Line.raw (zone : Zone) (l : Line) : String := l.ts zone ++ " " ++ l.body

/-- A time for `--since`. -/
def sinceText (t : Instant) : String := dateText t ++ " " ++ timeText t

/-- `journalctl --since`, which begins with the second of the text. -/
def journalctl (journal : List Line) (since : String) : List Line :=
  match fromisoformat since with
  | some d => journal.filter (fun l => d.wall ≤ (l.wall : ℤ))
  | none => []

/-! ## A scan -/

def errorCategories : List (String × String) :=
  [("retention","retention enforcement failed"),("compaction","compaction failed"),("upload","upload"),("ssh","ssh:"),
    ("replica","replica"),("other","error")]

def categorize (lineLower : String) : String := ((errorCategories.find? (fun c => contains lineLower c.2)).map Prod.fst).getD "other"

/-- The two parts of `raw.split(" ", 1)`, with the whole text for a second that is missing. -/
def splitOnce (raw : String) : String × String :=
  if ' ' ∈ raw.toList then
    (String.ofList (raw.toList.takeWhile (· ≠ ' ')),String.ofList (raw.toList.dropWhile (· ≠ ' ')).tail)
  else (raw,raw)

def journalCursor : String := "litestream.journal_cursor"

def lastErrKey (category : String) : String := "litestream.last_err_" ++ category

/-- The readings of the clock in a call, and what `journalctl` fails with. -/
structure ScanCall where
  now : Instant
  notedAt : Instant
  failure : Option String

structure ScanReport where
  errorsByCategory : List (String × List String)
  fired : List String
  error : Option String
  deriving DecidableEq

structure ScanState where
  journal : List Line
  settings : Settings

/-- `datetime.isoformat` of a naive time. -/
def naiveIso (t : Instant) : String := dateText t ++ "T" ++ timeText t ++ fractionText t

/-- A notification of the category went out less than an hour ago. -/
def rateLimited (settings : Settings) (category : String) (now : Instant) : Bool :=
  match fromisoformat (settings.text (lastErrKey category)) with
  | some d => d.offset = none && (now : ℤ) - d.wall < 3600 * second
  | none => false

def noteCategory (now : Instant) (r : List String × Settings) (category : String) : List String × Settings :=
  if rateLimited r.2 category now then r else (r.1 ++ [category],r.2.set (lastErrKey category) (naiveIso now))

/-- The cursor after the newest timestamp. -/
def advanceCursor (settings : Settings) (lastTs : String) : Settings :=
  if lastTs = "" then settings
  else match fromisoformat (zuluToOffset lastTs) with
    | some d => settings.set journalCursor (sinceText (d.wall + second).toNat)
    | none => settings

section
variable (U : CaseMap) (zone : Zone)

/-- The error lines that a scan reads. -/
def errorsRead (c : ScanCall) (s : ScanState) : List Line :=
  match c.failure with
  | some _ => []
  | none =>
    let since := if s.settings.text journalCursor ≠ "" then s.settings.text journalCursor else sinceText (c.now - 3600 * second)
    (journalctl s.journal since).filter (fun l => contains (l.raw zone) "level=ERROR")

/-- The bodies of lines by category, in the order in which the categories appear. -/
def byCategory (raws : List String) : List (String × List String) :=
  let categorized := raws.map (fun raw => (categorize (U.lower (splitOnce raw).2),(splitOnce raw).2))
  (OrderedDict.firstKeys (categorized.map Prod.fst)).map (fun k => (k,(categorized.filter (fun e => e.1 = k)).map Prod.snd))

/-- The greatest timestamp; the empty text is below all. -/
def lastTs (raws : List String) : String :=
  raws.foldl (fun last raw => if last < (splitOnce raw).1 then (splitOnce raw).1 else last) ""

def scanJournalErrors (c : ScanCall) (s : ScanState) : ScanReport × ScanState :=
  match c.failure with
  | some e => (⟨[],[],some ("journalctl unavailable: " ++ e)⟩,s)
  | none =>
    let raws := (errorsRead zone c s).map (Line.raw zone)
    let errors := byCategory U raws
    let noted := (errors.map Prod.fst).foldl (noteCategory c.notedAt) ([],s.settings)
    (⟨errors,noted.1,none⟩,{ s with settings := advanceCursor noted.2 (lastTs raws) })

/-! ## Runs -/

inductive JournalEvent
  | arrive (l : Line)
  | scan (c : ScanCall)

/-- Lines arrive in the order of their seconds, and scans come between them. -/
def JournalStep (s : ScanState) (e : JournalEvent) (t : ScanState) : Prop :=
  match e with
  | .arrive l => (∀ q ∈ s.journal, q.seq ≠ l.seq ∧ q.wallSecond ≤ l.wallSecond) ∧ t = { s with journal := s.journal ++ [l] }
  | .scan c => t = (scanJournalErrors U zone c s).2

def IsError (l : Line) : Prop := contains (l.raw zone) "level=ERROR" = true

instance (l : Line) : Decidable (IsError zone l) := inferInstanceAs (Decidable (_ = true))

/-- A scan that `journalctl` answers. -/
def Reads (e : JournalEvent) : Prop :=
  match e with
  | .arrive _ => False
  | .scan c => c.failure = none

/-- The lines whose bodies a step puts into `errors_by_category`. -/
def reported (t : Transition ScanState JournalEvent) : List Line :=
  match t.label with
  | .arrive _ => []
  | .scan c => errorsRead zone c t.before

/-- The bodies of some lines under their categories. -/
def grouped (lines : List Line) : List (String × List String) :=
  (OrderedDict.firstKeys (lines.map (fun l => categorize (U.lower l.body)))).map (fun k =>
    (k,(lines.filter (fun l => categorize (U.lower l.body) = k)).map Line.body))

/-- The scans have read the errors of the seconds up to `k`. -/
def CursorAt (s : ScanState) (k : ℕ) : Prop :=
  s.settings.text journalCursor = sinceText ((k + 1) * second) ∧ (k + 1) * second < endOfTime

/-- No answered scan of a run had an error line after the second `k` in its journal. -/
def Passed (ts : List (Transition ScanState JournalEvent)) (k : ℕ) : Prop :=
  ∀ t ∈ ts, Reads t.label → ∀ p ∈ t.before.journal, IsError zone p → p.wallSecond ≤ k

/-- The scans have reported nothing and left the cursor empty, or the cursor is behind a newest reported line. -/
def Newest (ts : List (Transition ScanState JournalEvent)) (s : ScanState) : Prop :=
  (ts.flatMap (reported zone) = [] ∧ s.settings.text journalCursor = "") ∨
    ∃ q ∈ ts.flatMap (reported zone), CursorAt s q.wallSecond ∧ Passed zone ts q.wallSecond

end

/-! ## The texts -/

section
variable {U : CaseMap} {zone : Zone} {l q : Line} {t : Instant}

theorem toList_zoneText (z : Zone) : z.text.toList = (if z.east then '+' else '-') :: ((pad 2 z.hours).toList ++ (pad 2 z.minutes).toList) := by
  have hsign : (if z.east then "+" else "-").toList = [if z.east then '+' else '-'] := by cases z.east <;> rfl
  rw [Zone.text, String.toList_append, String.toList_append, List.append_assoc, hsign, List.singleton_append]

theorem parseZone_text (z : Zone) : ∃ offset, parseZone z.text.toList = some (some offset) := by
  have hh : z.hours < 10 ^ 2 := z.hours_lt.trans (by decide)
  have hm : z.minutes < 10 ^ 2 := z.minutes_lt.trans (by decide)
  have hlast := @takeNumber_pad 2 z.minutes [] (by decide) hm
  have hcolon := @head_pad 2 z.minutes [] ':' (by decide) hm (by decide)
  have hne : (pad 2 z.minutes).toList ≠ [] := List.ne_nil_of_length_pos (by rw [length_pad (by decide) hm]; decide)
  rw [List.append_nil] at hlast hcolon
  have hclock : parseClock ((pad 2 z.hours).toList ++ (pad 2 z.minutes).toList) = some ⟨z.hours,z.minutes,0,0⟩ := by
    rw [parseClock, takeNumber_pad (by decide) hh]
    simp only [Option.bind_eq_bind, Option.bind_some, if_neg hne, decide_eq_false hcolon, skip, Bool.false_eq_true, if_false, hlast, if_true]
    rfl
  have htotal : (ClockTime.mk z.hours z.minutes 0 0).total < day := by
    have hseconds : z.hours * 3600 + z.minutes * 60 + 0 < 86400 := by
      have hhours := z.hours_lt
      have hminutes := z.minutes_lt
      omega
    have hday : day = 86400 * second := rfl
    rw [ClockTime.total, hday, Nat.add_zero]
    exact (Nat.mul_lt_mul_right (by decide)).mpr hseconds
  have hsign : (if z.east then '+' else '-') ≠ 'Z' := by cases z.east <;> decide
  rw [toList_zoneText, parseZone, if_neg hsign, hclock, Option.bind_some, if_pos htotal]
  exact ⟨_,rfl⟩

theorem marksZone_text (z : Zone) : ∀ c ∈ z.text.toList.head?, marksZone c = true := by
  intro c hc
  rw [toList_zoneText, List.head?_cons] at hc
  rw [← Option.some_inj.mp hc]
  cases z.east <;> decide

theorem fractionText_of_whole (h : t % second = 0) : fractionText t = "" := if_pos h

theorem fromisoformat_sinceText (ht : t < endOfTime) (hwhole : t % second = 0) : fromisoformat (sinceText t) = some ⟨(t : ℤ),none⟩ := by
  have htext : (sinceText t).toList = (dateText t).toList ++ ' ' :: ((timeText t).toList ++ (fractionText t).toList ++ []) := by
    rw [sinceText, fractionText_of_whole hwhole, String.toList_append, String.toList_append, List.append_assoc]
    simp
  have hhead : ∀ c ∈ ([] : List Char).head?, marksZone c = true := by simp
  have hzone : parseZone [] = some none := rfl
  have hread := @fromisoformat_wall t (sinceText t) ' ' [] none ht htext hhead hzone
  exact hread

theorem toList_ts (zone : Zone) (l : Line) : (l.ts zone).toList =
    (dateText l.wall).toList ++ 'T' :: ((timeText l.wall).toList ++ zone.text.toList) := by
  have hsep : "T".toList = ['T'] := rfl
  rw [Line.ts, String.toList_append, String.toList_append, String.toList_append, List.append_assoc, List.append_assoc, hsep,
    List.singleton_append]

theorem whole_wall (l : Line) : l.wall % second = 0 := Nat.mul_mod_left _ _

theorem wall_div (l : Line) : l.wall / second = l.wallSecond := Nat.mul_div_cancel _ (by decide)

theorem wall_lt (l : Line) : l.wall < endOfTime := (Nat.mul_le_mul_right _ (Nat.le_succ _)).trans_lt l.bound

theorem not_mem_ts {c : Char} (hdigit : c.isDigit = false) (hout : c ∉ ['-',':','T','+']) (zone : Zone) (l : Line) :
    c ∉ (l.ts zone).toList := by
  obtain ⟨hhyphen,hcolon,hsep,hplus⟩ : c ≠ '-' ∧ c ≠ ':' ∧ c ≠ 'T' ∧ c ≠ '+' := by simpa using hout
  have hsign : c ≠ if zone.east then '+' else '-' := by cases zone.east <;> assumption
  rw [toList_ts, toList_zoneText, List.mem_append, List.mem_cons, List.mem_append, List.mem_cons, List.mem_append]
  rintro (hmem | hmem | hmem | hmem | hmem | hmem)
  · exact not_mem_dateText hdigit hhyphen _ hmem
  · exact hsep hmem
  · exact not_mem_timeText hdigit hcolon _ hmem
  · exact hsign hmem
  · exact not_mem_pad hdigit _ _ hmem
  · exact not_mem_pad hdigit _ _ hmem

theorem fromisoformat_ts (zone : Zone) (l : Line) :
    ∃ offset, fromisoformat (zuluToOffset (l.ts zone)) = some ⟨(l.wall : ℤ),some offset⟩ := by
  obtain ⟨offset,hoffset⟩ := parseZone_text zone
  have hzulu : 'Z' ∉ (l.ts zone).toList := not_mem_ts (by decide) (by decide) zone l
  refine ⟨offset,?_⟩
  rw [zuluToOffset_of_no_zulu hzulu]
  have htext : (l.ts zone).toList =
      (dateText l.wall).toList ++ 'T' :: ((timeText l.wall).toList ++ (fractionText l.wall).toList ++ zone.text.toList) := by
    rw [toList_ts, fractionText_of_whole (whole_wall l)]
    simp
  exact fromisoformat_wall (wall_lt l) htext (marksZone_text zone) hoffset

theorem ts_lt (h : l.wallSecond < q.wallSecond) : l.ts zone < q.ts zone := by
  change (l.ts zone).toList < (q.ts zone).toList
  rw [toList_ts, toList_ts]
  exact wallText_lt (by rwa [wall_div, wall_div]) (wall_lt q) 'T' _

theorem ts_pos (zone : Zone) (l : Line) : "" < l.ts zone := by
  change [] < (l.ts zone).toList
  cases hlist : (l.ts zone).toList with
  | nil =>
    rw [toList_ts] at hlist
    simp at hlist
  | cons c cs => exact List.nil_lt_cons c cs

theorem ts_ne_empty (zone : Zone) (l : Line) : l.ts zone ≠ "" := (ts_pos zone l).ne'

/-- A line falls into its timestamp and its body. -/
theorem splitOnce_raw (zone : Zone) (l : Line) : splitOnce (l.raw zone) = (l.ts zone,l.body) := by
  have hlist : (l.raw zone).toList = (l.ts zone).toList ++ ' ' :: l.body.toList := by
    have hblank : " ".toList = [' '] := rfl
    rw [Line.raw, String.toList_append, String.toList_append, List.append_assoc, hblank, List.singleton_append]
  have hall : ∀ c ∈ (l.ts zone).toList, decide (c ≠ ' ') = true := fun c hc => decide_eq_true (fun he => not_mem_ts (by decide) (by decide) zone l (he ▸ hc))
  rw [splitOnce, hlist, if_pos (List.mem_append_right _ List.mem_cons_self), List.takeWhile_append_of_pos hall,
    List.dropWhile_append_of_pos hall, List.takeWhile_cons_of_neg (by decide), List.dropWhile_cons_of_neg (by decide), List.append_nil,
    List.tail_cons, String.ofList_toList, String.ofList_toList]

theorem byCategory_lines (lines : List Line) : byCategory U (lines.map (Line.raw zone)) = grouped U lines := by
  have hcategorized : (lines.map (Line.raw zone)).map (fun raw => (categorize (U.lower (splitOnce raw).2),(splitOnce raw).2)) =
      lines.map (fun l => (categorize (U.lower l.body),l.body)) := by
    rw [List.map_map]
    exact List.map_congr_left (fun l _ => by simp only [Function.comp, splitOnce_raw])
  rw [byCategory, hcategorized, grouped, List.map_map]
  refine List.map_congr_left (fun k _ => ?_)
  rw [List.filter_map, List.map_map]
  rfl

theorem errorsByCategory_eq (c : ScanCall) (s : ScanState) :
    (scanJournalErrors U zone c s).1.errorsByCategory = grouped U (errorsRead zone c s) := by
  cases hfail : c.failure with
  | some e =>
    rw [scanJournalErrors, errorsRead, hfail]
    rfl
  | none =>
    rw [← @byCategory_lines U zone, scanJournalErrors, hfail]

/-! ## The cursor -/

/-- The greatest timestamp is the one of a newest line. -/
theorem lastTs_lines {lines : List Line} (h : lines ≠ []) : ∃ q ∈ lines, (∀ p ∈ lines, p.wallSecond ≤ q.wallSecond) ∧
    lastTs (lines.map (Line.raw zone)) = q.ts zone := by
  have hfold : lastTs (lines.map (Line.raw zone)) = (lines.map (Line.ts zone)).foldl (fun m x => if m < x then x else m) "" := by
    rw [lastTs, List.foldl_map, List.foldl_map]
    exact List.foldl_ext _ _ _ (fun m l _ => by rw [splitOnce_raw])
  obtain ⟨hmem,hmax⟩ := Ranking.foldl_max (lines.map (Line.ts zone)) ""
  rw [← hfold] at hmem hmax
  have hge : ∀ p ∈ lines, p.ts zone ≤ lastTs (lines.map (Line.raw zone)) :=
    fun p hp => hmax _ (List.mem_cons_of_mem _ (List.mem_map_of_mem hp))
  obtain ⟨p,hp⟩ := List.exists_mem_of_ne_nil _ h
  have hne : lastTs (lines.map (Line.raw zone)) ≠ "" := by
    intro hempty
    have hle := hge p hp
    rw [hempty] at hle
    exact absurd (ts_pos zone p) (not_lt.mpr hle)
  obtain ⟨q,hq,hts⟩ := List.mem_map.mp ((List.mem_cons.mp hmem).resolve_left hne)
  refine ⟨q,hq,fun p hp => ?_,hts.symm⟩
  have hle := hge p hp
  rw [← hts] at hle
  exact not_lt.mp (fun hlt => not_lt.mpr hle (ts_lt hlt))

theorem lastErrKey_ne (category : String) : journalCursor ≠ lastErrKey category := by
  intro h
  have hkey : startsWith (lastErrKey category) "litestream.last_err_" = true := startsWith_append _ _
  have hcursor : startsWith journalCursor "litestream.last_err_" = false := by decide +kernel
  rw [h, hkey] at hcursor
  cases hcursor

theorem noteCategory_cursor (now : Instant) (r : List String × Settings) (category : String) :
    (noteCategory now r category).2.text journalCursor = r.2.text journalCursor := by
  rw [noteCategory]
  split
  · rfl
  · exact Settings.text_set_of_ne (lastErrKey_ne category)

/-- The cursor goes a second past the line of the timestamp. -/
theorem advanceCursor_ts (settings : Settings) (zone : Zone) (l : Line) :
    (advanceCursor settings (l.ts zone)).text journalCursor = sinceText ((l.wallSecond + 1) * second) := by
  obtain ⟨offset,hread⟩ := fromisoformat_ts zone l
  have hnext : ((l.wall : ℤ) + second).toNat = (l.wallSecond + 1) * second := by
    rw [Nat.add_mul, Nat.one_mul]
    exact Int.toNat_natCast (l.wall + second)
  rw [advanceCursor, if_neg (ts_ne_empty zone l), hread, Settings.text_set_self, hnext]

theorem scan_journal (c : ScanCall) (s : ScanState) : (scanJournalErrors U zone c s).2.journal = s.journal := by
  rw [scanJournalErrors]
  cases c.failure <;> rfl

/-- A scan that reads no error leaves the cursor, and another puts it behind a newest line. -/
theorem scan_cursor (c : ScanCall) (s : ScanState) :
    (errorsRead zone c s = [] ∧ (scanJournalErrors U zone c s).2.settings.text journalCursor = s.settings.text journalCursor) ∨
      ∃ q ∈ errorsRead zone c s, (∀ p ∈ errorsRead zone c s, p.wallSecond ≤ q.wallSecond) ∧
        CursorAt (scanJournalErrors U zone c s).2 q.wallSecond := by
  cases hfail : c.failure with
  | some e => exact Or.inl ⟨by rw [errorsRead, hfail],by rw [scanJournalErrors, hfail]⟩
  | none =>
    have hnoted := foldl_keeps (fun r : List String × Settings => r.2.text journalCursor)
      (b := ([],s.settings)) (l := (byCategory U ((errorsRead zone c s).map (Line.raw zone))).map Prod.fst)
      (fun r k _ => noteCategory_cursor c.notedAt r k)
    by_cases hnone : errorsRead zone c s = []
    · refine Or.inl ⟨hnone,?_⟩
      rw [hnone] at hnoted
      rw [scanJournalErrors, hfail, hnone]
      exact hnoted
    · obtain ⟨q,hq,hmax,hts⟩ := @lastTs_lines zone _ hnone
      refine Or.inr ⟨q,hq,hmax,?_,q.bound⟩
      rw [scanJournalErrors, hfail]
      dsimp only
      rw [hts]
      exact advanceCursor_ts _ zone q

theorem mem_journalctl {journal : List Line} {k : ℕ} (h : k * second < endOfTime) :
    q ∈ journalctl journal (sinceText (k * second)) ↔ q ∈ journal ∧ k ≤ q.wallSecond := by
  rw [journalctl, fromisoformat_sinceText h (Nat.mul_mod_left _ _), List.mem_filter, decide_eq_true_iff, Int.ofNat_le, Line.wall,
    Nat.mul_le_mul_right_iff (by decide)]

/-- A scan that reads an error line reads the later ones. -/
theorem errorsRead_later {c : ScanCall} {s : ScanState} {p : Line} (h : q ∈ errorsRead zone c s) (hp : p ∈ s.journal)
    (herror : IsError zone p) (hle : q.wallSecond ≤ p.wallSecond) : p ∈ errorsRead zone c s := by
  have hwall : (q.wall : ℤ) ≤ p.wall := Int.ofNat_le.mpr (Nat.mul_le_mul_right _ hle)
  unfold errorsRead journalctl at h ⊢
  cases hfail : c.failure with
  | some e =>
    rw [hfail] at h
    exact absurd h List.not_mem_nil
  | none =>
    rw [hfail] at h
    dsimp only at h ⊢
    obtain ⟨hread,-⟩ := List.mem_filter.mp h
    refine List.mem_filter.mpr ⟨?_,herror⟩
    split at hread
    · exact List.mem_filter.mpr ⟨hp,decide_eq_true ((of_decide_eq_true (List.mem_filter.mp hread).2).trans hwall)⟩
    · exact absurd hread List.not_mem_nil

/-- The newest line that a scan reads is a newest error line of the journal. -/
theorem errorsRead_newest {c : ScanCall} {s : ScanState} {p : Line} (h : q ∈ errorsRead zone c s)
    (hmax : ∀ p ∈ errorsRead zone c s, p.wallSecond ≤ q.wallSecond) (hp : p ∈ s.journal) (herror : IsError zone p) :
    p.wallSecond ≤ q.wallSecond := by
  by_contra hlt
  exact hlt (hmax p (errorsRead_later h hp herror (not_le.mp hlt).le))

theorem sinceText_ne_empty (t : Instant) : sinceText t ≠ "" := by
  intro h
  have hlist := congrArg String.toList h
  rw [sinceText, String.toList_append, String.toList_append] at hlist
  simp at hlist

/-- A scan reads the errors of the seconds after the cursor's. -/
theorem mem_errorsRead {c : ScanCall} {s : ScanState} {k : ℕ} (h : CursorAt s k) :
    q ∈ errorsRead zone c s ↔ c.failure = none ∧ q ∈ s.journal ∧ k < q.wallSecond ∧ IsError zone q := by
  cases hfail : c.failure with
  | some e => simp [errorsRead, hfail]
  | none =>
    rw [errorsRead, hfail]
    dsimp only
    rw [if_pos (by rw [h.1]; exact sinceText_ne_empty _), h.1, List.mem_filter, mem_journalctl h.2, IsError, and_assoc]
    exact (and_iff_right rfl).symm

/-! ## What the runs report -/

theorem journal_step {s t : ScanState} {e : JournalEvent} (h : JournalStep U zone s e t) : s.journal ⊆ t.journal := by
  cases e with
  | arrive l =>
    obtain ⟨-,rfl⟩ := h
    exact List.subset_append_left _ _
  | scan c =>
    rw [show t = _ from h, scan_journal]
    exact List.Subset.refl _

theorem reported_spec {t : Transition ScanState JournalEvent} (h : q ∈ reported zone t) :
    Reads t.label ∧ q ∈ t.before.journal ∧ IsError zone q := by
  rw [reported] at h
  split at h
  · exact absurd h List.not_mem_nil
  · rename_i c hlabel
    rw [hlabel]
    unfold errorsRead journalctl at h
    split at h
    · exact absurd h List.not_mem_nil
    · rename_i hfail
      obtain ⟨hread,herror⟩ := List.mem_filter.mp h
      refine ⟨hfail,?_,herror⟩
      split at hread
      · exact (List.mem_filter.mp hread).1
      · exact absurd hread List.not_mem_nil

theorem Passed.snoc {ts : List (Transition ScanState JournalEvent)} {u : Transition ScanState JournalEvent} {k : ℕ}
    (h : Passed zone ts k) (hu : Reads u.label → ∀ p ∈ u.before.journal, IsError zone p → p.wallSecond ≤ k) :
    Passed zone (ts ++ [u]) k := by
  intro t ht
  rcases List.mem_append.mp ht with ht | ht
  · exact h t ht
  · rw [List.mem_singleton.mp ht]
    exact hu

theorem newest_step {s t : ScanState} {e : JournalEvent} {ts : List (Transition ScanState JournalEvent)}
    (hstep : JournalStep U zone s e t) (hgrows : ∀ u ∈ ts, u.before.journal ⊆ s.journal) (h : Newest zone ts s) :
    Newest zone (ts ++ [⟨s,e,t⟩]) t := by
  rw [Newest, List.flatMap_append, List.flatMap_singleton]
  cases e with
  | arrive l =>
    obtain ⟨-,rfl⟩ := hstep
    rw [show reported zone _ = [] from rfl, List.append_nil]
    refine h.imp_right ?_
    rintro ⟨q,hq,hat,hpassed⟩
    exact ⟨q,hq,hat,hpassed.snoc False.elim⟩
  | scan c =>
    obtain rfl : t = _ := hstep
    rw [show reported zone _ = errorsRead zone c s from rfl]
    rcases @scan_cursor U zone c s with ⟨hnone,hsame⟩ | ⟨q,hq,hmax,hat⟩
    · rw [hnone, List.append_nil, hsame]
      refine h.imp_right ?_
      rintro ⟨q,hq,hat,hpassed⟩
      refine ⟨q,hq,⟨hsame.trans hat.1,hat.2⟩,hpassed.snoc (fun hreads p hp herror => ?_)⟩
      by_contra hlt
      have hmem : p ∈ errorsRead zone c s := (mem_errorsRead hat).mpr ⟨hreads,hp,not_le.mp hlt,herror⟩
      rw [hnone] at hmem
      exact absurd hmem List.not_mem_nil
    · have hnewest : ∀ p ∈ s.journal, IsError zone p → p.wallSecond ≤ q.wallSecond := fun _ => errorsRead_newest hq hmax
      have hpassed : Passed zone ts q.wallSecond := fun u hu _ p hp => hnewest p (hgrows u hu hp)
      exact Or.inr ⟨q,List.mem_append_right _ hq,hat,hpassed.snoc (fun _ => hnewest)⟩

theorem newest_trace {init s : ScanState} {ts : List (Transition ScanState JournalEvent)} (h : Trace (JournalStep U zone) init ts s)
    (hfresh : init.settings.text journalCursor = "") : Newest zone ts s ∧ ∀ t ∈ ts, t.before.journal ⊆ s.journal := by
  induction h with
  | nil => exact ⟨Or.inl ⟨rfl,hfresh⟩,fun _ hu => absurd hu List.not_mem_nil⟩
  | @snoc ts s t e h hstep ih =>
    obtain ⟨hnewest,hgrows⟩ := ih
    refine ⟨newest_step hstep hgrows hnewest,fun u hu => ?_⟩
    rcases List.mem_append.mp hu with hu | hu
    · exact List.Subset.trans (hgrows u hu) (journal_step hstep)
    · rw [List.mem_singleton.mp hu]
      exact journal_step hstep

/-- A step reports the error lines of the journal that its cursor passes, and a scan that is answered passes all. -/
theorem cursor_step {s t : ScanState} {e : JournalEvent} {k : ℕ} (hstep : JournalStep U zone s e t) (h : CursorAt s k) :
    ∃ k', k ≤ k' ∧ CursorAt t k' ∧ ∀ l ∈ s.journal, IsError zone l →
      (l ∈ reported zone ⟨s,e,t⟩ ↔ k < l.wallSecond ∧ l.wallSecond ≤ k') ∧ (Reads e → l.wallSecond ≤ k') := by
  cases e with
  | arrive l =>
    obtain ⟨-,rfl⟩ := hstep
    refine ⟨k,le_rfl,h,fun q _ _ => ⟨iff_of_false List.not_mem_nil ?_,False.elim⟩⟩
    exact fun hboth => absurd hboth.2 (not_le.mpr hboth.1)
  | scan c =>
    obtain rfl : t = _ := hstep
    rcases @scan_cursor U zone c s with ⟨hnone,hsame⟩ | ⟨q,hq,hmax,hcursor⟩
    · refine ⟨k,le_rfl,⟨hsame.trans h.1,h.2⟩,fun l hl herror => ⟨?_,fun hreads => ?_⟩⟩
      · rw [show reported zone _ = errorsRead zone c s from rfl, hnone]
        exact iff_of_false List.not_mem_nil (fun hboth => absurd hboth.2 (not_le.mpr hboth.1))
      · by_contra hlt
        have hmem : l ∈ errorsRead zone c s := (mem_errorsRead h).mpr ⟨hreads,hl,not_le.mp hlt,herror⟩
        rw [hnone] at hmem
        exact absurd hmem List.not_mem_nil
    · obtain ⟨hreads,-,hk,-⟩ := (mem_errorsRead h).mp hq
      have hpassed : ∀ l ∈ s.journal, IsError zone l → l.wallSecond ≤ q.wallSecond := fun _ => errorsRead_newest hq hmax
      refine ⟨q.wallSecond,hk.le,hcursor,fun l hl herror => ⟨?_,fun _ => hpassed l hl herror⟩⟩
      rw [show reported zone _ = errorsRead zone c s from rfl, mem_errorsRead h]
      exact ⟨fun hread => ⟨hread.2.2.1,hpassed l hl herror⟩,fun hboth => ⟨hreads,hl,hboth.1,herror⟩⟩

/-- An error line in the journal is reported once if the cursor has passed it since, and not again. -/
theorem count_reported {s t : ScanState} {ts : List (Transition ScanState JournalEvent)} {k : ℕ}
    (htrace : Trace (JournalStep U zone) s ts t) (h : CursorAt s k) (hl : l ∈ s.journal) (herror : IsError zone l) :
    ∃ k', k ≤ k' ∧ CursorAt t k' ∧ l ∈ t.journal ∧ ((∃ u ∈ ts, Reads u.label) → l.wallSecond ≤ k') ∧
      ts.countP (fun u => l ∈ reported zone u) = if k < l.wallSecond ∧ l.wallSecond ≤ k' then 1 else 0 := by
  induction htrace with
  | nil =>
    refine ⟨k,le_rfl,h,hl,fun hreads => ?_,?_⟩
    · obtain ⟨u,hu,-⟩ := hreads
      exact absurd hu List.not_mem_nil
    · exact (if_neg (fun hboth => absurd hboth.2 (not_le.mpr hboth.1))).symm
  | @snoc ts s' t e htrace hstep ih =>
    obtain ⟨k',hk,hat,hl',hreads,hcount⟩ := ih
    obtain ⟨k'',hk',hat',hlines⟩ := cursor_step hstep hat
    obtain ⟨hreported,hlast⟩ := hlines l hl' herror
    refine ⟨k'',hk.trans hk',hat',journal_step hstep hl',?_,?_⟩
    · rintro ⟨u,hu,hread⟩
      rcases List.mem_append.mp hu with hu | hu
      · exact (hreads ⟨u,hu,hread⟩).trans hk'
      · rw [List.mem_singleton.mp hu] at hread
        exact hlast hread
    · rw [List.countP_append, hcount, List.countP_singleton]
      simp only [decide_eq_true_eq, hreported]
      split_ifs <;> omega

/-- Each report holds the bodies of the lines its scan reads. An error line is in one report after its arrival, unless
an answered scan before it had an error line of its second in the journal. -/
theorem error_line_reported_once_iff {init s s' last : ScanState} {before after : List (Transition ScanState JournalEvent)}
    (h : Trace (JournalStep U zone) init (before ++ ⟨s,.arrive l,s'⟩ :: after) last)
    (hfresh : init.settings.text journalCursor = "") (hseen : ∃ t ∈ before, reported zone t ≠ [])
    (herror : IsError zone l) (hscan : ∃ t ∈ after, Reads t.label) :
    (∀ t ∈ after, ∀ c, t.label = .scan c →
      (scanJournalErrors U zone c t.before).1.errorsByCategory = grouped U (reported zone t)) ∧
    (after.countP (fun t => l ∈ reported zone t) = 1 ↔
      ∀ t ∈ before, Reads t.label → ∀ q ∈ t.before.journal, IsError zone q → q.wallSecond ≠ l.wallSecond) := by
  obtain ⟨hbefore,hafter⟩ := h.cut
  have harrive : JournalStep U zone s (.arrive l) s' := h.mem_step ⟨s,.arrive l,s'⟩ (by simp)
  obtain ⟨hnewest,hgrows⟩ := newest_trace hbefore hfresh
  constructor
  · intro t _ c hlabel
    rw [errorsByCategory_eq, reported, hlabel]
  obtain ⟨hlater,rfl⟩ := harrive
  rcases hnewest with ⟨hnone,-⟩ | ⟨q,hq,hat,hpassed⟩
  · obtain ⟨t,ht,hsome⟩ := hseen
    exact absurd (List.flatMap_eq_nil_iff.mp hnone t ht) hsome
  · obtain ⟨t,ht,hread⟩ := List.mem_flatMap.mp hq
    obtain ⟨hreads,hmem,hq⟩ := reported_spec hread
    have hle : q.wallSecond ≤ l.wallSecond := (hlater q (hgrows t ht hmem)).2
    obtain ⟨k,-,-,-,hk,hcount⟩ := count_reported hafter hat (List.mem_append_right _ List.mem_cons_self) herror
    rw [hcount]
    constructor
    · intro hone u hu huReads p hp hpError
      have hlt : q.wallSecond < l.wallSecond := by
        by_contra hge
        rw [if_neg (fun hboth => hge hboth.1)] at hone
        cases hone
      exact ((hpassed u hu huReads p hp hpError).trans_lt hlt).ne
    · intro hfree
      exact if_pos ⟨lt_of_le_of_ne hle (hfree t ht hreads q hmem hq),hk hscan⟩

end

/-! ## Two lines of one second -/

def utc : Zone := ⟨true,0,0,by decide,by decide⟩

def uploadFailed : Line := ⟨0,3600,"host litestream: level=ERROR upload",by decide⟩

def freshJournal : ScanState := ⟨[],fun _ => none⟩

def scanAt (t : Instant) : ScanCall := ⟨t,t,none⟩

def firstScan : ScanCall := scanAt (3600 * second + 300000)

/-- A scan after the first error, another line, and a scan ten seconds later. -/
def twoScans (l : Line) : List JournalEvent := [.arrive uploadFailed,.scan firstScan,.arrive l,.scan (scanAt (3610 * second))]

def journalNext (s : ScanState) : JournalEvent → ScanState
  | .arrive l => { s with journal := s.journal ++ [l] }
  | .scan c => (scanJournalErrors CaseMap.ascii utc c s).2

theorem journalNext_scan (s : ScanState) (c : ScanCall) : JournalStep CaseMap.ascii utc s (.scan c) (journalNext s (.scan c)) := rfl

theorem twoScans_trace {l : Line} (h : l.seq ≠ 0) (hlater : 3600 ≤ l.wallSecond) :
    Trace (JournalStep CaseMap.ascii utc) freshJournal (walk journalNext freshJournal (twoScans l)) ((twoScans l).foldl journalNext freshJournal) := by
  refine trace_of_walk (fun t ht => ?_)
  simp only [twoScans, walk, List.mem_cons, List.not_mem_nil, or_false] at ht
  rcases ht with rfl | rfl | rfl | rfl
  · exact ⟨by simp [freshJournal],rfl⟩
  · exact journalNext_scan _ _
  · refine ⟨?_,rfl⟩
    intro q hq
    rw [List.mem_singleton.mp hq]
    exact ⟨h.symm,hlater⟩
  · exact journalNext_scan _ _

def nextSecond : Line := ⟨1,3601,"host litestream: level=ERROR upload",by decide⟩

def sameSecond : Line := ⟨1,3600,"host litestream: level=ERROR ssh: no route",by decide⟩

theorem error_line_reported_once_iff_example :
    ((walk journalNext freshJournal (twoScans nextSecond)).drop 3).countP (fun t => nextSecond ∈ reported utc t) = 1 := by
  have hread : errorsRead utc firstScan (journalNext freshJournal (.arrive uploadFailed)) = [uploadFailed] := by decide +kernel
  have htrace := @twoScans_trace nextSecond (by decide) (by decide)
  refine (@error_line_reported_once_iff _ _ _ _ _ _ _ ((walk journalNext freshJournal (twoScans nextSecond)).take 2) _ htrace rfl ⟨_,List.mem_cons_of_mem _ List.mem_cons_self,?_⟩ (by decide +kernel)
    ⟨_,List.mem_cons_self,rfl⟩).2.mpr ?_
  · exact ne_of_eq_of_ne hread (List.cons_ne_nil _ _)
  · intro t ht hreads q hq _
    rcases List.mem_cons.mp ht with rfl | ht
    · exact hreads.elim
    · rw [List.mem_singleton.mp ht] at hq
      have hq : q ∈ [uploadFailed] := hq
      rw [List.mem_singleton.mp hq]
      decide

/-- The line comes in the second of an error that a scan has just reported, and no scan reads it. -/
theorem boundary_line_is_lost : ¬ ∀ (U : CaseMap) (zone : Zone) (l : Line) (init s s' last : ScanState)
    (before after : List (Transition ScanState JournalEvent)),
    Trace (JournalStep U zone) init (before ++ ⟨s,.arrive l,s'⟩ :: after) last → init.settings.text journalCursor = "" →
      (∃ t ∈ before, reported zone t ≠ []) → IsError zone l → (∃ t ∈ after, Reads t.label) →
      after.countP (fun t => l ∈ reported zone t) = 1 := by
  intro hall
  have hread : errorsRead utc firstScan (journalNext freshJournal (.arrive uploadFailed)) ≠ [] := by decide +kernel
  have hone := hall CaseMap.ascii utc sameSecond freshJournal _ _ _ ((walk journalNext freshJournal (twoScans sameSecond)).take 2) _
    (twoScans_trace (l := sameSecond) (by decide) (by decide)) rfl ⟨_,List.mem_cons_of_mem _ List.mem_cons_self,hread⟩ (by decide +kernel)
    ⟨_,List.mem_cons_self,rfl⟩
  revert hone
  decide +kernel

end Protek.Alerts
