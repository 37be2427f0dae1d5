import Protek.Foundation.Clock
import Mathlib.Data.List.Nodup
import Mathlib.Data.Int.Notation

/-! # The sources table

Names are unique and ids come from an AUTOINCREMENT counter, so that no id is ever
given out twice.
-/
namespace Protek.Federation
open Foundation.Clock

structure SourceRow where
  id : ℕ
  name : String
  url : String
  apiKey : String
  enabled : Bool := true
  lastPullAt : Option String := none
  lastPullN : ℕ := 0
  lastError : String := ""
  createdAt : String
  backoffUntil : Option Instant := none
  paused : Bool := false
  confidence : ℤ := 1
  lastPullMs : ℕ := 0
  deriving DecidableEq, Repr

/-- The LAPI and the bouncer key, which has a stream cursor of its own there. -/
def SourceRow.endpoint (r : SourceRow) : String × String := (r.url,r.apiKey)

structure Sources where
  rows : List SourceRow
  seq : ℕ
  ids_le : ∀ r ∈ rows, r.id ≤ seq
  ids_nodup : (rows.map SourceRow.id).Nodup
  names_nodup : (rows.map SourceRow.name).Nodup

namespace Sources

def empty : Sources where
  rows := []
  seq := 0
  ids_le := by simp
  ids_nodup := by simp
  names_nodup := by simp

def newRow (s : Sources) (name url apiKey : String) (confidence : ℤ) (now : Instant) : SourceRow where
  id := s.seq + 1
  name := name
  url := url
  apiKey := apiKey
  createdAt := isoformat now
  confidence := max 1 confidence

def insert (s : Sources) (name url apiKey : String) (confidence : ℤ) (now : Instant)
    (h : name ∉ s.rows.map SourceRow.name) : Sources where
  rows := s.rows ++ [s.newRow name url apiKey confidence now]
  seq := s.seq + 1
  ids_le := by
    intro r hr
    rcases List.mem_append.mp hr with hr | hr
    · have := s.ids_le r hr
      omega
    · rw [List.mem_singleton.mp hr]
      exact Nat.le_refl (s.seq + 1)
  ids_nodup := by
    rw [List.map_append]
    refine List.nodup_append.mpr ⟨s.ids_nodup,List.nodup_singleton _,?_⟩
    intro i hi j hj
    obtain ⟨r,hr,rfl⟩ := List.mem_map.mp hi
    have hle := s.ids_le r hr
    have hnew : j = s.seq + 1 := List.mem_singleton.mp hj
    omega
  names_nodup := by
    rw [List.map_append]
    refine List.nodup_append.mpr ⟨s.names_nodup,List.nodup_singleton _,?_⟩
    intro m hm n hn he
    have hname : n = name := List.mem_singleton.mp hn
    rw [he, hname] at hm
    exact h hm

/-- The statement leaves ids and names alone. -/
def SameSource (f : SourceRow → SourceRow) : Prop := ∀ r, (f r).id = r.id ∧ (f r).name = r.name

def updateWhere (s : Sources) (p : SourceRow → Bool) (f : SourceRow → SourceRow) (hf : SameSource f) : Sources where
  rows := s.rows.map (fun r => if p r then f r else r)
  seq := s.seq
  ids_le := by
    intro r hr
    obtain ⟨q,hq,rfl⟩ := List.mem_map.mp hr
    have hle := s.ids_le q hq
    split
    · rw [(hf q).1]
      exact hle
    · exact hle
  ids_nodup := by
    rw [List.map_map, show SourceRow.id ∘ _ = SourceRow.id from funext (fun r => ?_)]
    · exact s.ids_nodup
    · cases hp : p r <;> simp [hp, (hf r).1]
  names_nodup := by
    rw [List.map_map, show SourceRow.name ∘ _ = SourceRow.name from funext (fun r => ?_)]
    · exact s.names_nodup
    · cases hp : p r <;> simp [hp, (hf r).2]

def remove (s : Sources) (id : ℕ) : Sources where
  rows := s.rows.filter (fun r => r.id ≠ id)
  seq := s.seq
  ids_le r hr := s.ids_le r (List.mem_filter.mp hr).1
  ids_nodup := (List.filter_sublist.map SourceRow.id).nodup s.ids_nodup
  names_nodup := (List.filter_sublist.map SourceRow.name).nodup s.names_nodup

def update (s : Sources) (id : ℕ) (f : SourceRow → SourceRow) (hf : SameSource f) : Sources :=
  s.updateWhere (fun r => r.id = id) f hf

/-! ## federation.py -/

def addSource (s : Sources) (name url apiKey : String) (confidence : ℤ) (now : Instant) :
    Except String (ℕ × Sources) :=
  if h : name ∈ s.rows.map SourceRow.name then .error "UNIQUE constraint failed: sources.name"
  else .ok (s.seq + 1,s.insert name url apiKey confidence now h)

def deleteSource (s : Sources) (id : ℕ) : Except String Sources :=
  match s.rows.find? (fun r => r.id = id) with
  | none => .ok (s.remove id)
  | some row =>
    if row.name = "local" then .error "cannot delete the local source — manage it via .env"
    else .ok (s.remove id)

def setPaused (s : Sources) (id : ℕ) (paused : Bool) : Sources :=
  s.update id (fun r => { r with paused := paused }) (fun _ => ⟨rfl,rfl⟩)

def setEnabled (s : Sources) (id : ℕ) (enabled : Bool) : Sources :=
  s.update id (fun r => { r with enabled := enabled }) (fun _ => ⟨rfl,rfl⟩)

def setBackoff (s : Sources) (id : ℕ) (untilAt : Option Instant) : Sources :=
  s.update id (fun r => { r with backoffUntil := untilAt }) (fun _ => ⟨rfl,rfl⟩)

def recordPull (s : Sources) (id count : ℕ) (error : String) (durationMs : ℕ) (now : Instant) : Sources :=
  s.update id
    (fun r => { r with lastPullAt := some (isoformat now), lastPullN := count, lastError := error, lastPullMs := durationMs })
    (fun _ => ⟨rfl,rfl⟩)

/-- `reseed_local_source` where the local row exists: its credentials follow `.env`, and
its backoff and error are cleared. -/
def reseedLocal (s : Sources) (url key : String) : Sources :=
  s.updateWhere (fun r => r.name = "local")
    (fun r => { r with url := url, apiKey := key, backoffUntil := none, lastError := "" }) (fun _ => ⟨rfl,rfl⟩)

def inBackoff (now : Instant) (r : SourceRow) : Bool := r.backoffUntil.any (fun untilAt => now < untilAt)

/-- What a tick pulls: `list_sources()` less the paused ones and those in backoff. -/
def active (s : Sources) (now : Instant) : List SourceRow :=
  s.rows.filter (fun r => r.enabled ∧ ¬ r.paused ∧ ¬ inBackoff now r)

theorem mem_active {s : Sources} {now : Instant} {r : SourceRow} (h : r ∈ s.active now) : r ∈ s.rows :=
  (List.mem_filter.mp h).1

theorem active_names_nodup (s : Sources) (now : Instant) : ((s.active now).map SourceRow.name).Nodup :=
  (List.filter_sublist.map SourceRow.name).nodup s.names_nodup

theorem eq_of_name {s : Sources} {q r : SourceRow} (hq : q ∈ s.rows) (hr : r ∈ s.rows) (h : q.name = r.name) : q = r :=
  List.inj_on_of_nodup_map s.names_nodup hq hr h

/-- Every row comes from one of the same id and name, and one that has never been pulled
from one that had not been. -/
def Descends (s s' : Sources) : Prop :=
  ∀ r ∈ s'.rows, ∃ q ∈ s.rows, q.id = r.id ∧ q.name = r.name ∧ (r.lastPullAt = none → q.lastPullAt = none)

theorem Descends.refl (s : Sources) : Descends s s := fun r hr => ⟨r,hr,rfl,rfl,id⟩

theorem Descends.trans {s t u : Sources} (h : Descends s t) (h' : Descends t u) : Descends s u := by
  intro r hr
  obtain ⟨q,hq,hid,hname,hpull⟩ := h' r hr
  obtain ⟨p,hp,hid',hname',hpull'⟩ := h q hq
  exact ⟨p,hp,hid'.trans hid,hname'.trans hname,fun h => hpull' (hpull h)⟩

theorem descends_updateWhere {s : Sources} {p : SourceRow → Bool} {f : SourceRow → SourceRow} (hf : SameSource f)
    (hpull : ∀ r, (f r).lastPullAt = none → r.lastPullAt = none) : Descends s (s.updateWhere p f hf) := by
  intro r hr
  obtain ⟨q,hq,rfl⟩ := List.mem_map.mp hr
  cases p q with
  | true => exact ⟨q,hq,(hf q).1.symm,(hf q).2.symm,hpull q⟩
  | false => exact ⟨q,hq,rfl,rfl,id⟩

theorem descends_remove (s : Sources) (id : ℕ) : Descends s (s.remove id) :=
  fun r hr => ⟨r,(List.mem_filter.mp hr).1,rfl,rfl,fun h => h⟩

theorem descends_recordPull (s : Sources) (id count : ℕ) (error : String) (durationMs : ℕ) (now : Instant) :
    Descends s (s.recordPull id count error durationMs now) := by
  unfold recordPull update
  apply descends_updateWhere
  simp

theorem descends_setBackoff (s : Sources) (id : ℕ) (untilAt : Option Instant) : Descends s (s.setBackoff id untilAt) := by
  unfold setBackoff update
  apply descends_updateWhere
  exact fun _ h => h

/-- A recorded pull leaves no row of its id that has never been pulled. -/
theorem recordPull_pulled {s : Sources} {id count : ℕ} {error : String} {durationMs : ℕ} {now : Instant} {r : SourceRow}
    (hr : r ∈ (s.recordPull id count error durationMs now).rows) (hid : r.id = id) : r.lastPullAt ≠ none := by
  obtain ⟨q,_,rfl⟩ := List.mem_map.mp hr
  by_cases hq : q.id = id
  · simp [hq]
  · simp only [hq, decide_false, Bool.false_eq_true, if_false] at hid

theorem deleteSource_ok {s s' : Sources} {id : ℕ} (h : s.deleteSource id = .ok s') :
    s' = s.remove id := by
  unfold deleteSource at h
  split at h
  · cases h
    rfl
  · split at h
    · cases h
    · cases h
      rfl

end Sources
end Protek.Federation
