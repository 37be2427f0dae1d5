import Protek.Foundation.KeyedTable
import Mathlib.Data.Int.Notation
import Mathlib.Logic.Function.Basic

/-! # The database

The tables that the mirror, the policy and the admin routes read and write. The
unique keys of the schema are part of the tables' types, so that a database that
breaks one cannot be built.
-/
namespace Protek.Store
open Foundation

/-- A decision's identity within its source: value, scope, scenario. -/
abbrev Identity := String × String × String

structure DecisionRow where
  id : ℕ
  originSource : String
  lapiId : ℤ
  value : String
  scope : String
  type : String
  scenario : String
  origin : String
  duration : String
  untilAt : Option String
  firstSeenAt : String
  lastSeenAt : String
  deletedAt : Option String
  asn : String := ""
  asOrg : String := ""
  deriving DecidableEq, Repr

namespace DecisionRow

def identity (r : DecisionRow) : Identity := (r.value,r.scope,r.scenario)

/-- `UNIQUE (origin_source, value, scope, scenario)`. -/
def key (r : DecisionRow) : String × Identity := (r.originSource,r.identity)

def active (r : DecisionRow) : Bool := r.deletedAt.isNone

end DecisionRow

structure IpSource where
  ip : String
  sourceName : String
  lastSeenAt : String
  deriving DecidableEq, Repr

def IpSource.key (r : IpSource) : String × String := (r.ip,r.sourceName)

inductive WhitelistKind
  | ip
  | cidr
  | asn
  | country
  deriving DecidableEq, Repr

structure WhitelistRule where
  id : ℕ
  kind : WhitelistKind
  value : String
  note : String := ""
  expiresAt : Option String := none
  createdAt : String := ""
  deriving DecidableEq, Repr

def WhitelistRule.key (r : WhitelistRule) : WhitelistKind × String := (r.kind,r.value)

structure WhitelistHit where
  id : ℕ
  ip : String
  whitelistId : ℕ
  scenario : String
  createdAt : String
  deriving DecidableEq, Repr

inductive QueueStatus
  | pending
  | approved
  | rejected
  deriving DecidableEq, Repr

structure QueueRow where
  id : ℕ
  ip : String
  scope : String
  scenario : String
  origin : String
  originSource : String
  decisionId : Option ℤ
  status : QueueStatus
  createdAt : String
  deriving DecidableEq, Repr

structure GeoRow where
  ip : String
  asn : String
  countryCode : String
  deriving DecidableEq, Repr

structure AsnEscalation where
  id : ℕ
  asn : String
  status : QueueStatus
  decidedBy : String
  decidedAt : Option String
  note : String
  asOrg : String := ""
  ipCount : ℕ := 0
  windowHours : ℤ := 24
  sampleIps : List String := []
  firstSeenAt : String := ""
  lastSeenAt : String := ""
  deriving DecidableEq, Repr

/-- Each table with the last number its AUTOINCREMENT key gave out. -/
structure Db where
  decisions : KeyedTable (String × Identity) DecisionRow DecisionRow.key
  decisionsSeq : ℕ
  ipSources : KeyedTable (String × String) IpSource IpSource.key
  whitelist : KeyedTable (WhitelistKind × String) WhitelistRule WhitelistRule.key
  whitelistSeq : ℕ
  whitelistHits : KeyedTable ℕ WhitelistHit WhitelistHit.id
  whitelistHitsSeq : ℕ
  approvalQueue : List QueueRow
  approvalQueueSeq : ℕ
  geoCache : KeyedTable String GeoRow GeoRow.ip
  asnEscalations : KeyedTable ℕ AsnEscalation AsnEscalation.id
  asnEscalationsSeq : ℕ := 0
  settings : String → Option String

namespace Db

def empty : Db where
  decisions := .empty
  decisionsSeq := 0
  ipSources := .empty
  whitelist := .empty
  whitelistSeq := 0
  whitelistHits := .empty
  whitelistHitsSeq := 0
  approvalQueue := []
  approvalQueueSeq := 0
  geoCache := .empty
  asnEscalations := .empty
  settings := fun _ => none

def setSetting (db : Db) (key value : String) : Db :=
  { db with settings := Function.update db.settings key (some value) }

def activeRows (db : Db) : List DecisionRow := db.decisions.rows.filter DecisionRow.active

@[simp] theorem settings_setSetting (db : Db) (key value k : String) :
    (db.setSetting key value).settings k = if k = key then some value else db.settings k := by
  simp [setSetting, Function.update_apply]

/-- `INSERT INTO decisions … ON CONFLICT(origin_source, value, scope, scenario) DO UPDATE`. -/
def upsertDecision (db : Db) (fresh : DecisionRow) (merge : DecisionRow → DecisionRow)
    (hm : ∀ r, (merge r).key = r.key) : Db :=
  { db with
    decisions := db.decisions.upsert { fresh with id := db.decisionsSeq + 1 } merge hm
    decisionsSeq := if (db.decisions.find fresh.key).isSome then db.decisionsSeq else db.decisionsSeq + 1 }

theorem key_id (r : DecisionRow) : (id r).key = r.key := rfl

theorem key_ite {p : DecisionRow → Bool} {f : DecisionRow → DecisionRow} (hf : ∀ r, (f r).key = r.key)
    (r : DecisionRow) : (if p r then f r else r).key = r.key := by
  cases p r with
  | true => exact hf r
  | false => rfl

/-- `UPDATE decisions … WHERE p`, for a statement that leaves the key columns alone. -/
def updateDecisions (db : Db) (p : DecisionRow → Bool) (f : DecisionRow → DecisionRow)
    (hf : ∀ r, (f r).key = r.key) : Db :=
  { db with decisions := db.decisions.modify (fun r => if p r then f r else r) (key_ite hf) }

/-- Tombstoning: `SET deleted_at = now`. -/
def tombstone (db : Db) (p : DecisionRow → Bool) (now : String) : Db :=
  db.updateDecisions p (fun r => { r with deletedAt := some now }) (fun _ => rfl)

theorem find_upsertDecision (db : Db) (fresh : DecisionRow) (merge : DecisionRow → DecisionRow)
    (hm : ∀ r, (merge r).key = r.key) (k : String × Identity) :
    (db.upsertDecision fresh merge hm).decisions.find k =
      if k = fresh.key then some ((db.decisions.find k).elim { fresh with id := db.decisionsSeq + 1 } merge)
      else db.decisions.find k := KeyedTable.find_upsert _ _ _ hm k

theorem find_updateDecisions (db : Db) (p : DecisionRow → Bool) (f : DecisionRow → DecisionRow)
    (hf : ∀ r, (f r).key = r.key) (k : String × Identity) :
    (db.updateDecisions p f hf).decisions.find k = (db.decisions.find k).map (fun r => if p r then f r else r) :=
  KeyedTable.find_modify db.decisions (fun r => if p r then f r else r) (key_ite hf) k

theorem find_tombstone (db : Db) (p : DecisionRow → Bool) (now : String) (k : String × Identity) :
    (db.tombstone p now).decisions.find k =
      (db.decisions.find k).map (fun r => if p r then { r with deletedAt := some now } else r) :=
  find_updateDecisions db p (fun r => { r with deletedAt := some now }) (fun _ => rfl) k

theorem mem_upsertDecision {db : Db} {fresh r : DecisionRow} {merge : DecisionRow → DecisionRow}
    {hm : ∀ r, (merge r).key = r.key} : r ∈ (db.upsertDecision fresh merge hm).decisions.rows ↔
      (r ∈ db.decisions.rows ∧ r.key ≠ fresh.key) ∨
        r = (db.decisions.find fresh.key).elim { fresh with id := db.decisionsSeq + 1 } merge := @KeyedTable.mem_upsert _ _ _ _ _ _ _ _ hm

theorem mem_updateDecisions {db : Db} {p : DecisionRow → Bool} {f : DecisionRow → DecisionRow}
    {hf : ∀ r, (f r).key = r.key} {r : DecisionRow} : r ∈ (db.updateDecisions p f hf).decisions.rows ↔
      ∃ q ∈ db.decisions.rows, (if p q then f q else q) = r := List.mem_map

theorem mem_activeRows {db : Db} {r : DecisionRow} :
    r ∈ db.activeRows ↔ r ∈ db.decisions.rows ∧ r.deletedAt = none := by
  simp [activeRows, DecisionRow.active]

end Db
end Protek.Store
