import Mathlib.Logic.Function.Basic
import Protek.Foundation.Survivors
import Protek.Policy.Desired

/-! # The current-state migration

`migrate_decisions_current_state.py` rebuilds `decisions` under a key of source, value,
scope and scenario: of each identity with a live row the live row with the highest id is
copied, and nothing else. The old table is renamed away only after the copy.
-/
namespace Protek.Retention
open Foundation Foundation.PyText Foundation.Survivors Foundation.OrderedDict Protek.Store Protek.Policy

/-- The columns of the copy, all but the id. -/
structure DecisionColumns where
  originSource : String
  lapiId : ℤ
  value : String
  scope : String
  type : String
  scenario : String
  origin : Option String
  duration : Option String
  untilAt : Option String
  firstSeenAt : String
  lastSeenAt : String
  deletedAt : Option String
  deriving DecidableEq, Repr

def DecisionColumns.key (c : DecisionColumns) : String × Identity := (c.originSource,c.value,c.scope,c.scenario)

def DecisionColumns.live (c : DecisionColumns) : Bool := c.deletedAt.isNone

structure StoredDecision where
  id : ℤ
  columns : DecisionColumns
  deriving DecidableEq, Repr

namespace StoredDecision

def key (r : StoredDecision) : String × Identity := r.columns.key

def live (r : StoredDecision) : Bool := r.columns.live

end StoredDecision

/-- The rows in the order in which a statement visits them. The key on source and `lapi_id`
of the old schema is not needed. -/
structure OldTable where
  rows : List StoredDecision
  ids : (rows.map StoredDecision.id).Nodup

abbrev NewTable := Numbered (String × Identity) StoredDecision StoredDecision.key

/-- The SELECT of `COPY_SURVIVORS`. -/
def selectSurvivors (rows : List StoredDecision) : List StoredDecision :=
  rows.filter (fun d => d.live ∧
    sqlMax ((rows.filter (fun d2 => d2.key = d.key ∧ d2.live)).map StoredDecision.id) = some d.id)

def freshRow (id : ℕ) (c : DecisionColumns) : StoredDecision := ⟨id,c⟩

/-- `COPY_SURVIVORS` into the table of `NEW_SCHEMA`, `none` where a row violates its key. -/
def copySurvivors (rows : List StoredDecision) : Option NewTable :=
  insertRows freshRow ⟨KeyedTable.empty,0⟩ ((selectSurvivors rows).map StoredDecision.columns)

/-- The count over the `GROUP BY` of the live rows. -/
def survivorCount (rows : List StoredDecision) : ℕ :=
  (firstKeys ((rows.filter StoredDecision.live).map StoredDecision.key)).length

/-! ## The script -/

/-- An index of a `CREATE INDEX`; the one behind a UNIQUE constraint has no `sql`. -/
structure Index where
  name : String
  table : String
  deriving DecidableEq, Repr

structure Database where
  tables : String → Option (List StoredDecision)
  indexes : List Index

namespace Database

def dropTable (db : Database) (name : String) : Database where
  tables := Function.update db.tables name none
  indexes := db.indexes.filter (fun i => i.table ≠ name)

/-- `ALTER TABLE … RENAME TO`, refused where the name is taken; the indexes follow the table. -/
def renameTable (db : Database) (source target : String) : Option Database :=
  match db.tables source, db.tables target with
  | some rows, none => some
    { tables := Function.update (Function.update db.tables source none) target (some rows)
      indexes := db.indexes.map (fun i => if i.table = source then { i with table := target } else i) }
  | _, _ => none

def dropIndexesOf (db : Database) (table : String) : Database :=
  { db with indexes := db.indexes.filter (fun i => i.table ≠ table) }

/-- `CREATE INDEX IF NOT EXISTS … ON decisions`: the name decides, on whatever table it is. -/
def createIndex (db : Database) (name : String) : Database :=
  if db.indexes.any (fun i => i.name = name) then db else { db with indexes := db.indexes ++ [⟨name,"decisions"⟩] }

def indexesOf (db : Database) (table : String) : List String :=
  (db.indexes.filter (fun i => i.table = table)).map Index.name

end Database

/-- The names in `INDEXES`. -/
def INDEXES : List String :=
  ["idx_decisions_active","idx_decisions_value","idx_decisions_scenario","idx_decisions_live_scenario",
   "idx_decisions_live_origin","idx_decisions_lastseen_value","idx_decisions_lastseen_scenario"]

/-- The first transaction, `none` where a statement fails; with the number of rows in `decisions_new`. -/
def buildNew (db : Database) : Option (Database × ℕ) :=
  let db := db.dropTable "decisions_new"
  match db.tables "decisions" with
  | none => none
  | some rows => (copySurvivors rows).map (fun t =>
    ({ db with tables := Function.update db.tables "decisions_new" (some t.table.rows) },t.table.rows.length))

inductive Swap
  | raised
  /-- Indexes that are missing on the new table, and the ROLLBACK. -/
  | rolledBack (missing : List String)
  | committed (db : Database)

def swapNames (db : Database) : Option Database :=
  (db.renameTable "decisions" "decisions_old").bind (fun db => db.renameTable "decisions_new" "decisions")

/-- The old table's indexes have their names back before the new ones are made. -/
def remakeIndexes (db : Database) : Database := INDEXES.foldl Database.createIndex (db.dropIndexesOf "decisions_old")

def missingIndexes (db : Database) : List String := INDEXES.filter (fun n => n ∉ db.indexesOf "decisions")

/-- The second transaction. -/
def swap (db : Database) (dropOld : Bool) : Swap :=
  match swapNames db with
  | none => .raised
  | some db =>
    let remade := remakeIndexes db
    if missingIndexes remade ≠ [] then .rolledBack (missingIndexes remade)
    else .committed (if dropOld then remade.dropTable "decisions_old" else remade)

structure Args where
  dryRun : Bool
  yes : Bool
  dropOld : Bool

/-- The operator's answer, another holder of the file, and what `integrity_check` says. -/
structure World where
  reply : Bool
  held : Bool
  integrity : Database → Bool

inductive Exit
  | code (n : ℕ)
  | raised
  deriving DecidableEq, Repr

/-- What a run has printed of its counts, and what it leaves. -/
structure Run where
  exit : Exit
  survivors : Option ℕ
  copied : Option ℕ
  db : Database

/-- A statement that raises ends its transaction without a COMMIT. -/
def main (args : Args) (world : World) (db : Database) : Run :=
  match db.tables "decisions" with
  | none => ⟨.raised,none,none,db⟩
  | some rows =>
    let survivors := some (survivorCount rows)
    if args.dryRun then ⟨.code 0,survivors,none,db⟩
    else if !args.yes && !world.reply then ⟨.code 1,survivors,none,db⟩
    else if world.held then ⟨.code 1,survivors,none,db⟩
    else
      match buildNew db with
      | none => ⟨.raised,survivors,none,db⟩
      | some (built,copied) =>
        if !world.integrity built then ⟨.code 1,survivors,some copied,built⟩
        else
          match swap built args.dropOld with
          | .raised => ⟨.raised,survivors,some copied,built⟩
          | .rolledBack _ => ⟨.code 1,survivors,some copied,built⟩
          | .committed db => ⟨.code 0,survivors,some copied,db⟩

/-! ## The reader -/

structure SelectedRow where
  value : String
  scope : String
  scenario : String
  origin : Option String
  originSource : String
  lapiId : ℤ
  deriving DecidableEq, Repr

def SelectedRow.pair (d : SelectedRow) : String × String := (d.value,d.scope)

def DecisionColumns.pair (c : DecisionColumns) : String × String := (c.value,c.scope)

/-- MIN passes over NULL. -/
def minNullable (l : List (Option String)) : Option String :=
  if l.filterMap id = [] then none else some (minText (l.filterMap id))

def selectedRow (rows : List DecisionColumns) (k : String × String) : SelectedRow :=
  let group := rows.filter (fun c => c.pair = k)
  { value := k.1
    scope := k.2
    scenario := minText (group.map DecisionColumns.scenario)
    origin := minNullable (group.map DecisionColumns.origin)
    originSource := minText (group.map DecisionColumns.originSource)
    lapiId := (group.map DecisionColumns.lapiId).min?.getD 0 }

section
variable (U : CaseMap) (T : CharTable) (db : Db) (now : Clock.Instant)

/-- The SELECT of `_desired_from_db` where `decisions` has these rows and `db` is the rest of the database. -/
def selectFromRows (rows : List DecisionColumns) : List SelectedRow :=
  let rows := rows.filter (fun c => c.live ∧ qualifies T db now c.value)
  (firstKeys (rows.map DecisionColumns.pair)).map (selectedRow rows)

def desiredFromRows (rows : List DecisionColumns) : List SelectedRow :=
  let out := (selectFromRows T db now rows).filter (fun d => (whitelisted U db now d.value).isNone)
  if approvalRequired db.settings then out.filter (fun d => approved db d.value) else out

def DecisionColumns.ofRow (r : DecisionRow) : DecisionColumns where
  originSource := r.originSource
  lapiId := r.lapiId
  value := r.value
  scope := r.scope
  type := r.type
  scenario := r.scenario
  origin := some r.origin
  duration := some r.duration
  untilAt := r.untilAt
  firstSeenAt := r.firstSeenAt
  lastSeenAt := r.lastSeenAt
  deletedAt := r.deletedAt

def SelectedRow.ofDesired (d : DesiredRow) : SelectedRow where
  value := d.value
  scope := d.scope
  scenario := d.scenario
  origin := some d.origin
  originSource := d.originSource
  lapiId := d.lapiId

end

section
variable {U : CaseMap} {T : CharTable} {db : Db} {now : Clock.Instant}

theorem selectedRow_ofRow {rows : List DecisionRow} {k : String × String} (hk : k ∈ rows.map (fun r => (r.value,r.scope))) :
    selectedRow (rows.map DecisionColumns.ofRow) k = SelectedRow.ofDesired (groupRow rows k) := by
  obtain ⟨r,hr,rfl⟩ := List.mem_map.mp hk
  have hgroup : (rows.map DecisionColumns.ofRow).filter (fun c => c.pair = (r.value,r.scope)) =
      (rows.filter (fun q => (q.value,q.scope) = (r.value,r.scope))).map DecisionColumns.ofRow := List.filter_map
  have hne : rows.filter (fun q => (q.value,q.scope) = (r.value,r.scope)) ≠ [] :=
    List.ne_nil_of_mem (List.mem_filter.mpr ⟨hr,decide_eq_true rfl⟩)
  rw [selectedRow, groupRow, hgroup]
  generalize rows.filter (fun q => (q.value,q.scope) = (r.value,r.scope)) = group at hne
  have horigin : (group.map (DecisionColumns.origin ∘ DecisionColumns.ofRow)).filterMap id = group.map DecisionRow.origin := by
    rw [List.filterMap_map, ← List.filterMap_eq_map]
    rfl
  have hmin : minNullable (group.map (DecisionColumns.origin ∘ DecisionColumns.ofRow)) =
      some (minText (group.map DecisionRow.origin)) := by
    rw [minNullable, horigin, if_neg (by simpa using hne)]
  simp only [SelectedRow.ofDesired, List.map_map, hmin]
  rfl

theorem selectFromRows_ofRow : selectFromRows T db now (db.decisions.rows.map DecisionColumns.ofRow) =
    (selectRows T db now).map SelectedRow.ofDesired := by
  have hrows : (db.decisions.rows.map DecisionColumns.ofRow).filter (fun c => c.live ∧ qualifies T db now c.value) =
      (db.activeRows.filter (fun r => qualifies T db now r.value)).map DecisionColumns.ofRow := by
    rw [List.filter_map, Db.activeRows, List.filter_filter]
    refine congrArg _ (List.filter_congr (fun r _ => ?_))
    rw [Function.comp_apply, Bool.decide_and, Bool.decide_eq_true, Bool.decide_eq_true, Bool.and_comm]
    rfl
  rw [selectFromRows, hrows, selectRows, List.map_map, List.map_map]
  refine List.map_congr_left (fun k hk => selectedRow_ofRow ?_)
  exact mem_firstKeys.mp hk

/-- Of the rows of the key the reader is the one of `_desired_from_db`. -/
theorem desiredFromRows_ofRow :
    desiredFromRows U T db now (db.decisions.rows.map DecisionColumns.ofRow) =
      (desiredFromDb U T db now).1.map SelectedRow.ofDesired := by
  have hfilter : ∀ (p : String → Bool) (l : List DesiredRow),
      (l.map SelectedRow.ofDesired).filter (fun d => p d.value) = (l.filter (fun d => p d.value)).map SelectedRow.ofDesired :=
    fun p l => List.filter_map
  rw [desiredFromRows, selectFromRows_ofRow, hfilter (fun v => (whitelisted U db now v).isNone), hfilter (approved db),
    desiredFromDb]
  by_cases hnil : selectRows T db now = []
  · simp [hnil]
  · rw [if_neg hnil]
    split <;> rfl

theorem mem_selectFromRows {rows : List DecisionColumns} {p : String × String} :
    p ∈ (selectFromRows T db now rows).map SelectedRow.pair ↔
      (∃ c ∈ rows, c.live = true ∧ c.pair = p) ∧ qualifies T db now p.1 = true := by
  have hpairs : (selectFromRows T db now rows).map SelectedRow.pair =
      firstKeys ((rows.filter (fun c => c.live ∧ qualifies T db now c.value)).map DecisionColumns.pair) := by
    rw [selectFromRows, List.map_map]
    exact List.map_id _
  rw [hpairs, mem_firstKeys, List.mem_map]
  simp only [List.mem_filter, Bool.decide_and, Bool.decide_eq_true, Bool.and_eq_true]
  constructor
  · rintro ⟨c,⟨hc,hlive,hq⟩,rfl⟩
    exact ⟨⟨c,hc,hlive,rfl⟩,hq⟩
  · rintro ⟨⟨c,hc,hlive,rfl⟩,hq⟩
    exact ⟨c,⟨hc,hlive,hq⟩,rfl⟩

theorem mem_desiredFromRows_row {rows : List DecisionColumns} {d : SelectedRow} :
    d ∈ desiredFromRows U T db now rows ↔ d ∈ selectFromRows T db now rows ∧ whitelisted U db now d.value = none ∧
      (approvalRequired db.settings = true → approved db d.value = true) := by
  rw [desiredFromRows]
  cases approvalRequired db.settings with
  | false => simp [List.mem_filter]
  | true => simp [List.mem_filter, and_comm]

/-- A pair is desired when it is selected and its value passes the other tests of the reader. -/
theorem mem_desiredFromRows {rows : List DecisionColumns} {p : String × String} :
    p ∈ (desiredFromRows U T db now rows).map SelectedRow.pair ↔
      p ∈ (selectFromRows T db now rows).map SelectedRow.pair ∧ whitelisted U db now p.1 = none ∧
        (approvalRequired db.settings = true → approved db p.1 = true) := by
  constructor
  · intro hp
    obtain ⟨d,hd,rfl⟩ := List.mem_map.mp hp
    obtain ⟨hsel,htests⟩ := mem_desiredFromRows_row.mp hd
    exact ⟨List.mem_map_of_mem hsel,htests⟩
  · rintro ⟨hp,htests⟩
    obtain ⟨d,hsel,rfl⟩ := List.mem_map.mp hp
    exact List.mem_map_of_mem (mem_desiredFromRows_row.mpr ⟨hsel,htests⟩)

/-- The reader's pairs depend on the rows only through the pairs of the live ones. -/
theorem mem_desiredFromRows_congr {rows rows' : List DecisionColumns} {p : String × String}
    (h : (∃ c ∈ rows, c.live = true ∧ c.pair = p) ↔ ∃ c ∈ rows', c.live = true ∧ c.pair = p) :
    p ∈ (desiredFromRows U T db now rows).map SelectedRow.pair ↔
      p ∈ (desiredFromRows U T db now rows').map SelectedRow.pair := by
  rw [mem_desiredFromRows, mem_desiredFromRows, mem_selectFromRows, mem_selectFromRows, h]

end

/-! ## What the copy contains -/

/-- The live row of an identity with the highest id. -/
structure HighestLive (rows : List StoredDecision) (k : String × Identity) (d : StoredDecision) : Prop where
  mem : d ∈ rows
  live : d.live = true
  key : d.key = k
  highest : ∀ e ∈ rows, e.live = true → e.key = k → e.id ≤ d.id

/-- Each identity with a live row has one row, that of its highest live one, and there are no others. -/
structure Rebuilt (old new : List StoredDecision) : Prop where
  kept : ∀ d ∈ old, d.live = true → ∃ top r, HighestLive old d.key top ∧ new.filter (fun r => r.key = d.key) = [r] ∧
    r.columns = top.columns
  nothingElse : ∀ r ∈ new, ∃ d ∈ old, d.live = true ∧ d.key = r.key

theorem highestLive_iff {rows : List StoredDecision} {k : String × Identity} {d : StoredDecision} :
    HighestLive rows k d ↔ IsTop StoredDecision.key StoredDecision.id (rows.filter StoredDecision.live) d ∧ d.key = k := by
  constructor
  · rintro ⟨hmem,hlive,rfl,hhigh⟩
    refine ⟨⟨List.mem_filter.mpr ⟨hmem,hlive⟩,fun e he hk => ?_⟩,rfl⟩
    obtain ⟨he,helive⟩ := List.mem_filter.mp he
    exact hhigh e he helive hk
  · rintro ⟨⟨hmem,htop⟩,rfl⟩
    obtain ⟨hmem,hlive⟩ := List.mem_filter.mp hmem
    exact ⟨hmem,hlive,rfl,fun e he helive hk => htop e (List.mem_filter.mpr ⟨he,helive⟩) hk⟩

theorem selectSurvivors_eq (rows : List StoredDecision) : selectSurvivors rows =
    survivors StoredDecision.key StoredDecision.id (rows.filter StoredDecision.live) := by
  rw [selectSurvivors, survivors, List.filter_filter]
  refine List.filter_congr (fun d _ => ?_)
  rw [maxRank, List.filter_filter, Bool.decide_and, Bool.decide_eq_true, Bool.and_comm]
  simp only [Bool.decide_and, Bool.decide_eq_true]

theorem mem_selectSurvivors {rows : List StoredDecision} {d : StoredDecision} :
    d ∈ selectSurvivors rows ↔ HighestLive rows d.key d := by
  rw [selectSurvivors_eq, mem_survivors, highestLive_iff, and_iff_left rfl]

section
variable {old : OldTable} {t : NewTable}

theorem OldTable.liveIds (old : OldTable) : ((old.rows.filter StoredDecision.live).map StoredDecision.id).Nodup :=
  (List.filter_sublist.map _).nodup old.ids

theorem exists_highestLive {rows : List StoredDecision} {d : StoredDecision} (hd : d ∈ rows) (hlive : d.live = true) :
    ∃ top, HighestLive rows d.key top := by
  have hmem : d ∈ rows.filter StoredDecision.live := List.mem_filter.mpr ⟨hd,hlive⟩
  obtain ⟨top,htop⟩ := @exists_isTop _ ℤ _ _ _ StoredDecision.key StoredDecision.id _ _ hmem
  exact ⟨top,highestLive_iff.mpr htop⟩

/-- The table has the columns of the survivors, in their order. -/
def IsCopy (old : OldTable) (t : NewTable) : Prop :=
  t.table.rows.map StoredDecision.columns = (selectSurvivors old.rows).map StoredDecision.columns

/-- The copy never violates the new key. -/
theorem copySurvivors_eq_some (old : OldTable) : ∃ t, copySurvivors old.rows = some t ∧ IsCopy old t := by
  refine insertRows_eq_some DecisionColumns.key StoredDecision.columns (fun _ _ => rfl) (fun _ _ => rfl) ?_
  have hkeys : ((selectSurvivors old.rows).map StoredDecision.columns).map DecisionColumns.key =
      (survivors StoredDecision.key StoredDecision.id (old.rows.filter StoredDecision.live)).map StoredDecision.key := by
    rw [List.map_map, selectSurvivors_eq]
    rfl
  rw [hkeys]
  exact nodup_map_survivors old.liveIds

theorem rebuilt_of_copy (h : IsCopy old t) : Rebuilt old.rows t.table.rows := by
  have hof : ∀ {a : StoredDecision} {l m : List StoredDecision}, l.map StoredDecision.columns = m.map StoredDecision.columns →
      a ∈ l → ∃ b ∈ m, b.columns = a.columns := fun hlm ha => List.mem_map.mp (hlm ▸ List.mem_map_of_mem ha)
  have hkey : ∀ {a b : StoredDecision}, a.columns = b.columns → a.key = b.key := fun h => congrArg DecisionColumns.key h
  constructor
  · intro d hd hlive
    obtain ⟨top,htop⟩ := exists_highestLive hd hlive
    obtain ⟨r,hr,hcol⟩ := hof h.symm (mem_selectSurvivors.mpr (htop.key ▸ htop))
    refine ⟨top,r,htop,?_,hcol⟩
    rw [← htop.key, ← hkey hcol]
    exact filter_key hr
  · intro r hr
    obtain ⟨d,hd,hcol⟩ := hof h hr
    have hhigh := mem_selectSurvivors.mp hd
    exact ⟨d,hhigh.mem,hhigh.live,hkey hcol⟩

/-- The dry run counts the rows of the copy. -/
theorem survivorCount_eq (h : IsCopy old t) : survivorCount old.rows = t.table.rows.length := by
  have hlen := congrArg List.length h
  rw [List.length_map, List.length_map, selectSurvivors_eq, length_survivors old.liveIds] at hlen
  exact hlen.symm

/-- Old and new table have the same pairs of value and scope in their live rows. -/
theorem live_pairs_of_copy (h : IsCopy old t) (p : String × String) :
    (∃ c ∈ old.rows.map StoredDecision.columns, c.live = true ∧ c.pair = p) ↔
      ∃ c ∈ t.table.rows.map StoredDecision.columns, c.live = true ∧ c.pair = p := by
  rw [h]
  constructor
  · rintro ⟨_,hc,hlive,rfl⟩
    obtain ⟨d,hd,rfl⟩ := List.mem_map.mp hc
    obtain ⟨top,htop⟩ := exists_highestLive hd hlive
    have hpair : top.columns.pair = d.columns.pair := by
      obtain ⟨-,hv,hs,-⟩ : _ ∧ _ ∧ _ ∧ _ := by simpa [StoredDecision.key, DecisionColumns.key] using htop.key
      rw [DecisionColumns.pair, DecisionColumns.pair, hv, hs]
    exact ⟨top.columns,List.mem_map_of_mem (mem_selectSurvivors.mpr (htop.key ▸ htop)),htop.live,hpair⟩
  · rintro ⟨_,hc,hlive,rfl⟩
    obtain ⟨d,hd,rfl⟩ := List.mem_map.mp hc
    exact ⟨d.columns,List.mem_map_of_mem (mem_selectSurvivors.mp hd).mem,hlive,rfl⟩

end

/-! ## What a run leaves -/

section
variable {args : Args} {world : World} {db : Database} {old : OldTable} {t : NewTable}

theorem tables_dropTable_of_ne {table other : String} (hne : table ≠ other) :
    (db.dropTable other).tables table = db.tables table := by
  simp [Database.dropTable, hne]

theorem buildNew_eq (hdec : db.tables "decisions" = some old.rows) (ht : copySurvivors old.rows = some t) :
    ∃ built, buildNew db = some (built,t.table.rows.length) ∧ built.tables "decisions" = some old.rows ∧
      built.tables "decisions_new" = some t.table.rows ∧ built.tables "decisions_old" = db.tables "decisions_old" ∧
      built.indexes = (db.dropTable "decisions_new").indexes := by
  have hdrop : (db.dropTable "decisions_new").tables "decisions" = some old.rows := by
    rw [tables_dropTable_of_ne (by decide), hdec]
  let tables := Function.update (db.dropTable "decisions_new").tables "decisions_new" (some t.table.rows)
  refine ⟨{ db.dropTable "decisions_new" with tables := tables },?_,?_,?_,?_,rfl⟩
  · rw [buildNew]
    simp only [hdrop, ht, Option.map_some]
    rfl
  · simpa [tables] using hdrop
  · simp [tables]
  · simp [tables, Database.dropTable]

theorem renameTable_eq_some {source target : String} {db' : Database} : db.renameTable source target = some db' ↔
    ∃ rows, db.tables source = some rows ∧ db.tables target = none ∧ db' =
      { tables := Function.update (Function.update db.tables source none) target (some rows)
        indexes := db.indexes.map (fun i => if i.table = source then { i with table := target } else i) } := by
  unfold Database.renameTable
  cases db.tables source <;> cases db.tables target <;> simp [eq_comm]

theorem tables_foldl_createIndex (names : List String) (db : Database) :
    (names.foldl Database.createIndex db).tables = db.tables := by
  induction names generalizing db with
  | nil => rfl
  | cons n names ih =>
    rw [List.foldl_cons, ih, Database.createIndex]
    split <;> rfl

theorem mem_indexesOf_dropTable {table other n : String} (hne : table ≠ other) (h : n ∈ db.indexesOf table) :
    n ∈ (db.dropTable other).indexesOf table := by
  obtain ⟨i,hi,rfl⟩ := List.mem_map.mp h
  obtain ⟨hi,htable⟩ := List.mem_filter.mp hi
  have hkeep : i.table ≠ other := fun he => hne ((of_decide_eq_true htable).symm.trans he)
  exact List.mem_map_of_mem (List.mem_filter.mpr ⟨List.mem_filter.mpr ⟨hi,decide_eq_true hkeep⟩,htable⟩)

theorem swapNames_decisions {db' : Database} (h : swapNames db = some db') :
    db'.tables "decisions" = db.tables "decisions_new" := by
  obtain ⟨aside,haside,hnew⟩ := Option.bind_eq_some_iff.mp h
  obtain ⟨rows,-,-,rfl⟩ := renameTable_eq_some.mp haside
  obtain ⟨rows',hrows',-,rfl⟩ := renameTable_eq_some.mp hnew
  have hkept : db.tables "decisions_new" = some rows' := by simpa using hrows'
  simp [hkept]

theorem missingIndexes_eq_nil : missingIndexes db = [] ↔ ∀ n ∈ INDEXES, n ∈ db.indexesOf "decisions" := by
  rw [missingIndexes, List.filter_eq_nil_iff]
  simp only [decide_eq_true_eq, not_not]

theorem tables_remakeIndexes : (remakeIndexes db).tables = db.tables := tables_foldl_createIndex INDEXES _

/-- A swap that commits has put the new rows under the name, with every index. -/
theorem swap_eq_committed {db' : Database} {dropOld : Bool} (h : swap db dropOld = .committed db') :
    db'.tables "decisions" = db.tables "decisions_new" ∧ ∀ n ∈ INDEXES, n ∈ db'.indexesOf "decisions" := by
  unfold swap at h
  split at h
  · cases h
  · next renamed hnames =>
    simp only at h
    split at h
    · cases h
    · next hmissing =>
      have htables : (remakeIndexes renamed).tables "decisions" = db.tables "decisions_new" :=
        (congrFun tables_remakeIndexes _).trans (swapNames_decisions hnames)
      have hidx := missingIndexes_eq_nil.mp (not_not.mp hmissing)
      cases dropOld with
      | false =>
        rw [if_neg Bool.false_ne_true] at h
        obtain rfl := Swap.committed.inj h
        exact ⟨htables,hidx⟩
      | true =>
        have hne : "decisions" ≠ "decisions_old" := by decide
        rw [if_pos rfl] at h
        obtain rfl := Swap.committed.inj h
        exact ⟨(tables_dropTable_of_ne hne).trans htables,fun n hn => mem_indexesOf_dropTable hne (hidx n hn)⟩

/-- Whatever the run, `decisions` is the old table or, when it has ended with 0, the copy; and the counts agree. -/
theorem main_decisions (hdec : db.tables "decisions" = some old.rows) (ht : copySurvivors old.rows = some t) :
    (main args world db).survivors = some (survivorCount old.rows) ∧
    ((main args world db).copied = none ∨ (main args world db).copied = some t.table.rows.length) ∧
    ((main args world db).db.tables "decisions" = some old.rows ∨
      (main args world db).exit = .code 0 ∧ (main args world db).db.tables "decisions" = some t.table.rows ∧
        ∀ n ∈ INDEXES, n ∈ (main args world db).db.indexesOf "decisions") := by
  obtain ⟨built,hbuilt,hbdec,hbnew,-,-⟩ := buildNew_eq hdec ht
  unfold main
  simp only [hdec, hbuilt]
  split
  · exact ⟨rfl,Or.inl rfl,Or.inl hdec⟩
  split
  · exact ⟨rfl,Or.inl rfl,Or.inl hdec⟩
  split
  · exact ⟨rfl,Or.inl rfl,Or.inl hdec⟩
  split
  · exact ⟨rfl,Or.inr rfl,Or.inl hbdec⟩
  split
  · exact ⟨rfl,Or.inr rfl,Or.inl hbdec⟩
  · exact ⟨rfl,Or.inr rfl,Or.inl hbdec⟩
  · next db' hswap =>
    obtain ⟨hnew,hidx⟩ := swap_eq_committed hswap
    exact ⟨rfl,Or.inr rfl,Or.inr ⟨rfl,hnew.trans hbnew,hidx⟩⟩

/-! ## When a run swaps the tables -/

/-- A wanted name is on no table but `decisions`. -/
def Reserved (db : Database) : Prop := ∀ i ∈ db.indexes, i.name ∈ INDEXES → i.table = "decisions"

theorem Reserved.createIndex (h : Reserved db) (n : String) : Reserved (db.createIndex n) := by
  unfold Database.createIndex
  split
  · exact h
  · intro i hi hname
    rcases List.mem_append.mp hi with hi | hi
    · exact h i hi hname
    · rw [List.mem_singleton.mp hi]

theorem Reserved.mem_createIndex (h : Reserved db) {n : String} (hn : n ∈ INDEXES) :
    n ∈ (db.createIndex n).indexesOf "decisions" := by
  unfold Database.createIndex
  split
  · next hany =>
    obtain ⟨i,hi,hname⟩ := List.any_eq_true.mp hany
    obtain rfl := of_decide_eq_true hname
    exact List.mem_map_of_mem (List.mem_filter.mpr ⟨hi,decide_eq_true (h i hi hn)⟩)
  · refine List.mem_map.mpr ⟨⟨n,"decisions"⟩,List.mem_filter.mpr ⟨?_,decide_eq_true rfl⟩,rfl⟩
    exact List.mem_append_right _ List.mem_cons_self

theorem mem_indexesOf_createIndex {table m n : String} (h : m ∈ db.indexesOf table) : m ∈ (db.createIndex n).indexesOf table := by
  unfold Database.createIndex
  split
  · exact h
  · obtain ⟨i,hi,rfl⟩ := List.mem_map.mp h
    obtain ⟨hi,htable⟩ := List.mem_filter.mp hi
    exact List.mem_map_of_mem (List.mem_filter.mpr ⟨List.mem_append_left _ hi,htable⟩)

/-- Making the indexes one after the other leaves each of them on the table. -/
theorem Reserved.mem_foldl {names : List String} (h : Reserved db) (hnames : names ⊆ INDEXES) {n : String}
    (hn : n ∈ names ∨ n ∈ db.indexesOf "decisions") : n ∈ (names.foldl Database.createIndex db).indexesOf "decisions" := by
  induction names generalizing db with
  | nil => exact hn.resolve_left List.not_mem_nil
  | cons m names ih =>
    obtain ⟨hm,hrest⟩ := List.cons_subset.mp hnames
    refine ih (h.createIndex m) hrest ?_
    rcases hn with hn | hn
    · rcases List.mem_cons.mp hn with rfl | hn
      · exact Or.inr (h.mem_createIndex hm)
      · exact Or.inl hn
    · exact Or.inr (mem_indexesOf_createIndex hn)

theorem swap_commits {built : Database} {rows rows' : List StoredDecision} (hdec : built.tables "decisions" = some rows)
    (hnew : built.tables "decisions_new" = some rows') (hold : built.tables "decisions_old" = none)
    (hidx : ∀ i ∈ built.indexes, i.name ∈ INDEXES → i.table = "decisions" ∨ i.table = "decisions_old") (dropOld : Bool) :
    ∃ db', swap built dropOld = .committed db' := by
  obtain ⟨aside,haside,htables,hindexes⟩ : ∃ aside, built.renameTable "decisions" "decisions_old" = some aside ∧
      aside.tables = Function.update (Function.update built.tables "decisions" none) "decisions_old" (some rows) ∧
      aside.indexes = built.indexes.map (fun i => if i.table = "decisions" then { i with table := "decisions_old" } else i) :=
    ⟨_,renameTable_eq_some.mpr ⟨rows,hdec,hold,rfl⟩,rfl,rfl⟩
  obtain ⟨renamed,hrenamed,hfinal⟩ : ∃ renamed, aside.renameTable "decisions_new" "decisions" = some renamed ∧
      renamed.indexes = aside.indexes.map (fun i => if i.table = "decisions_new" then { i with table := "decisions" } else i) := by
    refine ⟨_,renameTable_eq_some.mpr ⟨rows',?_,?_,rfl⟩,rfl⟩
    · simp [htables, hnew]
    · simp [htables]
  have hnames : swapNames built = some renamed := Option.bind_eq_some_iff.mpr ⟨aside,haside,hrenamed⟩
  have hreserved : Reserved (renamed.dropIndexesOf "decisions_old") := by
    intro i hi hname
    obtain ⟨hi,hnot⟩ := List.mem_filter.mp hi
    rw [hfinal, hindexes, List.map_map] at hi
    obtain ⟨j,hj,rfl⟩ := List.mem_map.mp hi
    have hjname : j.name ∈ INDEXES := by
      simp only [Function.comp_apply] at hname
      split at hname <;> split at hname <;> exact hname
    -- a wanted index has come along with the old table
    have haway : ∀ table, j.table = table → table = "decisions" ∨ table = "decisions_old" →
        ((fun i : Index => if i.table = "decisions_new" then { i with table := "decisions" } else i)
          (if j.table = "decisions" then { j with table := "decisions_old" } else j)).table = "decisions_old" := by
      rintro _ hjt (rfl | rfl) <;> simp [hjt]
    exact absurd (haway _ rfl (hidx j hj hjname)) (of_decide_eq_true hnot)
  have hmissing : missingIndexes (remakeIndexes renamed) = [] :=
    missingIndexes_eq_nil.mpr (fun n hn => hreserved.mem_foldl (List.Subset.refl _) (Or.inl hn))
  unfold swap
  simp only [hnames, hmissing, ne_eq, not_true_eq_false, if_false]
  exact ⟨_,rfl⟩

/-- A confirmed run on a sound file swaps the tables, unless `decisions_old` is still there or
another table has an index of a wanted name. -/
theorem main_completes (hdec : db.tables "decisions" = some old.rows) (hold : db.tables "decisions_old" = none)
    (hidx : ∀ i ∈ db.indexes, i.name ∈ INDEXES → i.table ∈ ["decisions","decisions_new","decisions_old"])
    (hrun : args.dryRun = false ∧ (args.yes = true ∨ world.reply = true) ∧ world.held = false)
    (hsound : ∀ db, world.integrity db = true) :
    (main args world db).exit = .code 0 ∧ ∃ t, copySurvivors old.rows = some t ∧
      (main args world db).db.tables "decisions" = some t.table.rows := by
  obtain ⟨t,ht,-⟩ := copySurvivors_eq_some old
  obtain ⟨built,hbuilt,hbdec,hbnew,hbold,hbidx⟩ := buildNew_eq hdec ht
  have hwanted : ∀ i ∈ built.indexes, i.name ∈ INDEXES → i.table = "decisions" ∨ i.table = "decisions_old" := by
    intro i hi hname
    rw [hbidx] at hi
    obtain ⟨hi,hnot⟩ := List.mem_filter.mp hi
    have hin := hidx i hi hname
    simp only [List.mem_cons, List.not_mem_nil, or_false] at hin
    rcases hin with h | h | h
    · exact Or.inl h
    · exact absurd h (of_decide_eq_true hnot)
    · exact Or.inr h
  obtain ⟨db',hswap⟩ := swap_commits hbdec hbnew (hbold.trans hold) hwanted args.dropOld
  obtain ⟨hnew,-⟩ := swap_eq_committed hswap
  obtain ⟨hdry,hyes,hheld⟩ := hrun
  have hgo : (!args.yes && !world.reply) = false := by
    rcases hyes with h | h <;> simp [h]
  have hmain : main args world db = ⟨.code 0,some (survivorCount old.rows),some t.table.rows.length,db'⟩ := by
    unfold main
    simp only [hdec, hdry, hgo, hheld, hbuilt, hsound, hswap, Bool.false_eq_true, if_false, Bool.not_true]
  rw [hmain]
  exact ⟨rfl,t,ht,hnew.trans hbnew⟩

/-- The migration keeps one row of each identity with a live row, that with the highest id, and
nothing else; the copy fits under the new key, the dry run counts its rows, and the reader finds
the same pairs before and after. -/
theorem migration_keeps_live_bans (U : CaseMap) (T : CharTable) (rest : Db) (now : Clock.Instant) (old : OldTable) :
    ∃ t, copySurvivors old.rows = some t ∧ Rebuilt old.rows t.table.rows ∧ survivorCount old.rows = t.table.rows.length ∧
      (∀ p, p ∈ (desiredFromRows U T rest now (old.rows.map StoredDecision.columns)).map SelectedRow.pair ↔
        p ∈ (desiredFromRows U T rest now (t.table.rows.map StoredDecision.columns)).map SelectedRow.pair) ∧
      ∀ (args : Args) (world : World) (db : Database), db.tables "decisions" = some old.rows →
        (main args world db).survivors = some t.table.rows.length ∧
        ((main args world db).copied = none ∨ (main args world db).copied = some t.table.rows.length) ∧
        ((main args world db).db.tables "decisions" = some old.rows ∨
          (main args world db).db.tables "decisions" = some t.table.rows) := by
  obtain ⟨t,ht,hcopy⟩ := copySurvivors_eq_some old
  have hcount := survivorCount_eq hcopy
  refine ⟨t,ht,rebuilt_of_copy hcopy,hcount,fun p => mem_desiredFromRows_congr (live_pairs_of_copy hcopy p),?_⟩
  intro args world db hdec
  obtain ⟨hsurvivors,hcopied,htables⟩ := @main_decisions args world db old t hdec ht
  exact ⟨hcount ▸ hsurvivors,hcopied,htables.imp_right (fun h => h.2.1)⟩

end
end Protek.Retention
