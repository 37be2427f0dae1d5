import Protek.Foundation.IsoTime
import Protek.Policy.Whitelist

/-! # Whitelist rules with an expiry

The text of the expiry is stored as it was sent, and held against SQLite's clock as
text: the rule stays in force to the end of the day it expires on.
-/
namespace Protek.Policy
open Foundation Foundation.PyText Foundation.Clock Protek.Store

section
variable (U : CaseMap) (T : CharTable)

/-- `whitelist_add`, with the fields of the form. -/
def whitelistAdd (db : Db) (form : String → Option String) (now : Instant) : Except String Db :=
  let expires := strip (orElse (form "expires_at") "")
  addWhitelist U T db (strip (orElse (form "kind") "")) (strip (orElse (form "value") "")) (strip (orElse (form "note") ""))
    (if expires = "" then none else some expires) now

/-- `v1_whitelist_add`, with the fields of the JSON object. -/
def v1WhitelistAdd (db : Db) (data : String → Option String) (now : Instant) : Except String Db :=
  addWhitelist U T db (strip (orElse (data "kind") "ip")) (strip (orElse (data "value") "")) (strip (orElse (data "note") ""))
    ((data "expires_at").filter (fun e => e ≠ "")) now

inductive AddRoute
  | form
  | v1

def AddRoute.add : AddRoute → Db → (String → Option String) → Instant → Except String Db
  | .form => whitelistAdd U T
  | .v1 => v1WhitelistAdd U T

end

section
variable {U : CaseMap} {T : CharTable}

theorem isoText_ne_empty {e : CalendarTime} {text : String} (h : IsoText e text) : text ≠ "" := by
  obtain ⟨form,-,zone,-,rfl⟩ := h
  intro hempty
  have hlen := congrArg (fun s => s.toList.length) hempty
  simp [String.toList_append, length_dateOf e.fits_date] at hlen

/-- Both routes store the text of the expiry as it is. -/
theorem AddRoute.stores {route : AddRoute} {db db' : Db} {fields : String → Option String} {added : Instant}
    {e : CalendarTime} {text : String} (htext : IsoText e text) (hadd : route.add U T db fields added = .ok db')
    (hexp : fields "expires_at" = some text) :
    ∃ kind value note, addWhitelist U T db kind value note (some text) added = .ok db' := by
  have hne := isoText_ne_empty htext
  cases route with
  | form =>
    have hform : whitelistAdd U T db fields added = .ok db' := hadd
    simp only [whitelistAdd, hexp, orElse_some hne, strip_isoText htext, if_neg hne] at hform
    exact ⟨_,_,_,hform⟩
  | v1 =>
    have hdata : v1WhitelistAdd U T db fields added = .ok db' := hadd
    have hfilter : (some text).filter (fun e => decide (e ≠ "")) = some text := by simp [hne]
    rw [v1WhitelistAdd, hexp, hfilter] at hdata
    exact ⟨_,_,_,hdata⟩

theorem mem_listWhitelist {db : Db} {now : Instant} {w : WhitelistRule} {text : String} (h : w.expiresAt = some text) :
    w ∈ listWhitelist db now ↔ w ∈ db.whitelist.rows ∧ sqliteDatetime now < text := by
  rw [listWhitelist, List.mem_insertionSort, List.mem_filter, h]
  simp

/-- What the comparison of the texts makes of the instants. -/
theorem awaits_agrees_iff {e : CalendarTime} {text : String} (h : IsoText e text) {now : Instant} (hnow : now < endOfTime) :
    (sqliteDatetime now < text ↔ e.Awaits now) ↔ ¬ e.PastOnTheDay now := by
  rw [sqliteDatetime_lt_iff h hnow]
  unfold CalendarTime.Awaits CalendarTime.PastOnTheDay
  rcases dateLt_trichotomy (civil (now / day)) e.date with hlt | heq | hgt
  · have hne : civil (now / day) ≠ e.date := by
      intro heq
      rw [heq] at hlt
      exact hlt.asymm hlt
    exact iff_of_true (iff_of_true hlt.asymm (Or.inl hlt)) (fun hpast => hne hpast.1)
  · have hself : ¬ DateLt e.date e.date := fun hgt => hgt.asymm hgt
    rw [heq]
    simp only [hself, not_false_eq_true, true_iff, false_or, true_and]
    exact not_le.symm
  · have hne : civil (now / day) ≠ e.date := by
      intro heq
      rw [heq] at hgt
      exact hgt.asymm hgt
    refine iff_of_true (iff_of_false (not_not.mpr hgt) ?_) (fun hpast => hne hpast.1)
    rintro (hlt | ⟨heq,-⟩)
    · exact hgt.asymm hlt
    · exact hne heq

end

/-- A rule added with an expiry is, while it is stored, listed exactly before the expiry, but at the instants
from the expiry to the end of that day, when it is still listed. -/
theorem in_force_until_expiry_iff (U : CaseMap) (T : CharTable) (route : AddRoute) (db db' : Db)
    (fields : String → Option String) (added : Instant) (e : CalendarTime) (text : String) (htext : IsoText e text)
    (hexp : fields "expires_at" = some text) (hadd : route.add U T db fields added = .ok db') :
    ∃ w ∈ db'.whitelist.rows, w.id = db.whitelistSeq + 1 ∧ w.expiresAt = some text ∧
      ∀ kept : Db, w ∈ kept.whitelist.rows → ∀ now < endOfTime,
        ((w ∈ listWhitelist kept now ↔ e.Awaits now) ↔ ¬ e.PastOnTheDay now) := by
  obtain ⟨kind,value,note,hstored⟩ := AddRoute.stores htext hadd hexp
  obtain ⟨p,-,rfl⟩ := addWhitelist_eq_ok.mp hstored
  refine ⟨⟨db.whitelistSeq + 1,p.1,p.2,note,some text,isoformat added⟩,?_,rfl,rfl,fun kept hkept now hnow => ?_⟩
  · exact mem_replaceRule.mpr (Or.inr rfl)
  · rw [mem_listWhitelist rfl, and_iff_right hkept]
    exact awaits_agrees_iff htext hnow

/-- The first instant of 2026-12-31. -/
def exampleExpiry : CalendarTime := .ofInstant (20818 * day) (by decide)

def exampleFields (field : String) : Option String :=
  if field = "kind" then some "ip"
  else if field = "value" then some "192.0.2.7"
  else if field = "expires_at" then some "2026-12-31T00:00:00Z"
  else none

theorem isoText_example : IsoText exampleExpiry "2026-12-31T00:00:00Z" :=
  ⟨"00:00:00",.seconds (by decide),"Z",by simp,by decide⟩

theorem add_example : ∃ db', AddRoute.add CaseMap.ascii CharTable.ascii .form Db.empty exampleFields 0 = .ok db' :=
  ⟨_,addWhitelist_eq_ok.mpr ⟨(.ip,"192.0.2.7"),by decide,rfl⟩⟩

theorem in_force_until_expiry_example : ∃ (db' : Db), ∃ w ∈ db'.whitelist.rows, w ∉ listWhitelist db' (20819 * day) := by
  obtain ⟨db',hadd⟩ := add_example
  obtain ⟨w,hw,-,-,hlisted⟩ := in_force_until_expiry_iff CaseMap.ascii CharTable.ascii .form Db.empty db' exampleFields 0
    exampleExpiry _ isoText_example rfl hadd
  refine ⟨db',w,hw,fun hmem => ?_⟩
  have hpast : ¬ exampleExpiry.PastOnTheDay (20819 * day) := fun h => absurd h.1 (by decide)
  have hawaits := ((hlisted db' hw (20819 * day) (by decide)).mpr hpast).mp hmem
  exact absurd ((CalendarTime.awaits_ofInstant _).mp hawaits) (by decide)

/-- At noon of the day a rule expired at its start it is listed. -/
theorem listed_on_expiry_day : ¬ ∀ (U : CaseMap) (T : CharTable) (route : AddRoute) (db db' : Db)
    (fields : String → Option String) (added : Instant) (e : CalendarTime) (text : String), IsoText e text →
      fields "expires_at" = some text → route.add U T db fields added = .ok db' →
      ∃ w ∈ db'.whitelist.rows, w.id = db.whitelistSeq + 1 ∧
        ∀ now < endOfTime, (w ∈ listWhitelist db' now ↔ e.Awaits now) := by
  intro h
  obtain ⟨db',hadd⟩ := add_example
  obtain ⟨w,hw,-,hlisted⟩ := h _ _ _ _ _ _ _ _ _ isoText_example rfl hadd
  obtain ⟨kind,value,note,hstored⟩ := AddRoute.stores isoText_example hadd rfl
  obtain ⟨p,-,rfl⟩ := addWhitelist_eq_ok.mp hstored
  obtain rfl := (mem_replaceRule.mp hw).resolve_left (fun hold => List.not_mem_nil hold.1)
  have hnoon := (hlisted (20818 * day + 12 * hour) (by decide)).mp
    ((mem_listWhitelist rfl).mpr ⟨hw,by decide⟩)
  exact absurd ((CalendarTime.awaits_ofInstant _).mp hnoon) (by decide)

end Protek.Policy
