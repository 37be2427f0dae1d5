import Mathlib.Logic.Function.Basic
import Protek.Foundation.SqlTable

/-! # The schema

What `init_db` executes, statement by statement. A table of an older version lacks columns that were added since,
and every statement commits on its own.
-/
namespace Protek.Store.Schema
open Foundation.SqlTable (SqlValue Members cellOf)

structure Table where
  columns : List String
  rows : List Members
  deriving DecidableEq

/-- The columns of an index, with that of its WHERE. -/
structure Index where
  table : String
  columns : List String
  deriving DecidableEq

/-- Each name in use, with the table that a trigger is on. -/
structure Database where
  tables : String → Option Table
  indexes : String → Option Index
  triggers : String → Option String

inductive Statement
  | createTable (name : String) (columns : List String)
  | createIndex (name table : String) (columns : List String)
  /-- `ALTER TABLE … ADD COLUMN`, behind its look at `PRAGMA table_info`. -/
  | addColumn (table column definition : String)
  | insertSetting (key : String)
  | createTrigger (name table : String)
  deriving DecidableEq

def SCHEMA : List Statement :=
  [.createTable "decisions" ["id","origin_source","lapi_id","value","scope","type","scenario","origin","duration","until",
      "first_seen_at","last_seen_at","deleted_at"],
   .createIndex "idx_decisions_active" "decisions" ["deleted_at","value"],
   .createIndex "idx_decisions_value" "decisions" ["value"],
   .createIndex "idx_decisions_scenario" "decisions" ["scenario"],
   .createIndex "idx_decisions_live_scenario" "decisions" ["scenario","deleted_at"],
   .createIndex "idx_decisions_live_origin" "decisions" ["origin_source","deleted_at"],
   .createIndex "idx_decisions_lastseen_value" "decisions" ["last_seen_at","value"],
   .createIndex "idx_decisions_lastseen_scenario" "decisions" ["last_seen_at","scenario"],
   .createTable "alerts" ["id","origin_source","lapi_id","machine_id","scenario","source_ip","source_asn","source_country",
      "events_count","created_at","raw_json"],
   .createIndex "idx_alerts_created" "alerts" ["created_at"],
   .createTable "sync_events" ["id","started_at","duration_ms","added","removed","unchanged","errors","source","dry_run","notes"],
   .createTable "mt_pushes" ["id","sync_event_id","ip","action","success","error"],
   .createIndex "idx_mt_pushes_event" "mt_pushes" ["sync_event_id"],
   .createTable "geo_cache" ["ip","country","country_code","city","lat","lon","asn","as_org","cached_at"],
   .createTable "login_attempts" ["id","ip","attempts","locked_until","last_attempt"],
   .createTable "login_audit" ["id","ip","username","success","reason","created_at"],
   .createIndex "idx_login_audit_created" "login_audit" ["created_at"],
   .createTable "settings" ["key","value","updated_at"],
   .createTable "sources" ["id","name","url","api_key","enabled","last_pull_at","last_pull_n","last_error","created_at"]]

def EXTRA_TABLES : List Statement :=
  [.createTable "ip_sources" ["ip","source_name","last_seen_at"],
   .createTable "cti_cache" ["ip","reputation","score","classifications","behaviors","feeds","raw_json","cached_at"],
   .createTable "whois_cache" ["ip","netname","org","country","abuse_email","raw","cached_at"],
   .createTable "whitelist" ["id","kind","value","note","expires_at","created_at"],
   .createTable "whitelist_hits" ["id","ip","whitelist_id","scenario","created_at"],
   .createTable "approval_queue" ["id","ip","scope","scenario","origin","origin_source","decision_id","status","decided_by",
      "decided_at","created_at"],
   .createTable "bouncer_targets" ["id","name","kind","config_json","enabled","dry_run","last_sync_at","last_error","created_at"],
   .createTable "siem_journal" ["id","created_at","event_type","severity","payload_json","shipped_at","ship_error"],
   .createIndex "idx_siem_journal_created" "siem_journal" ["created_at"],
   .createIndex "idx_siem_journal_shipped" "siem_journal" ["shipped_at"],
   .createTable "audit_log" ["id","created_at","actor","ip","action","target","before_json","after_json","note"],
   .createIndex "idx_audit_log_created" "audit_log" ["created_at"],
   .createIndex "idx_audit_log_action" "audit_log" ["action"],
   .createTable "alert_states" ["rule_key","firing","level","firing_since","last_check","last_message","last_notified",
      "consecutive"],
   .createTable "alert_silences" ["id","pattern","until_at","reason","created_at","created_by"],
   .createIndex "idx_alert_silences_until" "alert_silences" ["until_at"],
   .createTable "asn_escalations" ["id","asn","as_org","ip_count","window_hours","sample_ips","first_seen_at","last_seen_at",
      "status","decided_by","decided_at","note"],
   .createIndex "idx_asn_escalations_status" "asn_escalations" ["status"],
   .createIndex "idx_asn_escalations_asn" "asn_escalations" ["asn"],
   .createTable "ip_tags" ["ip","tag","source","created_at","expires_at"],
   .createIndex "idx_ip_tags_tag" "ip_tags" ["tag"],
   .createTable "reputation_cache" ["ip","score","tier","breakdown_json","computed_at"],
   .createIndex "idx_reputation_tier" "reputation_cache" ["tier"],
   .createTable "users" ["id","username","password_hash","totp_secret","role","created_at","last_login_at","disabled",
      "ui_advanced","ui_tour_done"],
   .createIndex "idx_users_username" "users" ["username"],
   .createTable "api_tokens" ["id","name","token_hash","token_prefix","scopes","created_by","created_at","expires_at",
      "last_used_at","last_used_ip","disabled"],
   .createIndex "idx_api_tokens_hash" "api_tokens" ["token_hash"],
   .createTable "webhook_subs" ["id","name","url","hmac_secret","event_mask","enabled","created_at","last_ok_at","last_error",
      "consec_failures"],
   .createTable "webhook_dlq" ["id","sub_id","event_type","payload_json","last_error","attempts","first_seen_at",
      "last_attempt_at"],
   .createIndex "idx_webhook_dlq_sub" "webhook_dlq" ["sub_id"],
   .createTable "disk_samples" ["id","ts","used_pct","free_bytes","total_bytes"],
   .createIndex "idx_disk_samples_ts" "disk_samples" ["ts"]]

def MIGRATIONS : List (String × String × String) :=
  [("sync_events","lapi_fetch_ms","INTEGER NOT NULL DEFAULT 0"),
   ("sync_events","snapshot_ms","INTEGER NOT NULL DEFAULT 0"),
   ("sync_events","diff_ms","INTEGER NOT NULL DEFAULT 0"),
   ("sync_events","apply_ms","INTEGER NOT NULL DEFAULT 0"),
   ("sources","backoff_until","TEXT DEFAULT NULL"),
   ("sources","paused","INTEGER NOT NULL DEFAULT 0"),
   ("sources","confidence","INTEGER NOT NULL DEFAULT 1"),
   ("sources","last_pull_ms","INTEGER NOT NULL DEFAULT 0"),
   ("decisions","asn","TEXT DEFAULT ''"),
   ("decisions","as_org","TEXT DEFAULT ''"),
   ("geo_cache","rdns","TEXT DEFAULT ''"),
   ("users","ui_advanced","INTEGER DEFAULT NULL"),
   ("users","ui_tour_done","INTEGER DEFAULT NULL")]

/-- The statements of `_init_db_locked` in their order. -/
def STATEMENTS : List Statement :=
  SCHEMA ++ EXTRA_TABLES ++ MIGRATIONS.map (fun m => .addColumn m.1 m.2.1 m.2.2) ++
    [.insertSetting "ui.advanced_default",.createTrigger "audit_log_no_update" "audit_log",
     .createTrigger "audit_log_no_delete" "audit_log"]

/-- What a row that is there gets, of the definitions in `MIGRATIONS`. -/
def defaultValue : String → SqlValue
  | "INTEGER NOT NULL DEFAULT 0" => .int 0
  | "INTEGER NOT NULL DEFAULT 1" => .int 1
  | "TEXT DEFAULT ''" => .text ""
  | _ => .null

namespace Database
variable (db : Database)

def setTable (name : String) (t : Table) : Database := { db with tables := Function.update db.tables name (some t) }

def createTable (name : String) (columns : List String) : Database :=
  if (db.tables name).isSome then db else db.setTable name ⟨columns,[]⟩

/-- `none` where the table or one of the columns is missing. -/
def createIndex (name table : String) (columns : List String) : Option Database :=
  match db.tables table with
  | none => none
  | some t =>
    if (db.indexes name).isSome then some db
    else if ∀ c ∈ columns, c ∈ t.columns then
      some { db with indexes := Function.update db.indexes name (some ⟨table,columns⟩) }
    else none

/-- `PRAGMA table_info` -/
def tableInfo (table : String) : List String := ((db.tables table).map Table.columns).getD []

/-- `none` where the table is missing, or has the column. -/
def addColumn (table column definition : String) : Option Database :=
  match db.tables table with
  | none => none
  | some t =>
    if column ∈ t.columns then none
    else some (db.setTable table ⟨t.columns ++ [column],t.rows.map (fun r => r ++ [(column,defaultValue definition)])⟩)

def settingRow (key value updatedAt : String) : Members := [("key",.text key),("value",.text value),("updated_at",.text updatedAt)]

/-- The row of a setting. -/
def setting (key : String) : Option Members :=
  (db.tables "settings").bind (fun t => t.rows.find? (fun r => cellOf r "key" = .text key))

/-- `INSERT OR IGNORE INTO settings` -/
def insertSetting (key value updatedAt : String) : Option Database :=
  match db.tables "settings" with
  | none => none
  | some t =>
    if ∀ c ∈ ["key","value","updated_at"], c ∈ t.columns then
      if (db.setting key).isSome then some db
      else some (db.setTable "settings" { t with rows := t.rows ++ [settingRow key value updatedAt] })
    else none

def createTrigger (name table : String) : Option Database :=
  match db.tables table with
  | none => none
  | some _ =>
    if (db.triggers name).isSome then some db
    else some { db with triggers := Function.update db.triggers name (some table) }

/-- One statement, `none` where it raises. -/
def exec (upgrading : Bool) (now : String) : Statement → Option Database
  | .createTable name columns => some (db.createTable name columns)
  | .createIndex name table columns => db.createIndex name table columns
  | .addColumn table column definition => db.addColumn table column definition
  | .insertSetting key => db.insertSetting key (if upgrading then "1" else "0") now
  | .createTrigger name table => db.createTrigger name table

end Database

/-! ## A database of any age -/

/-- The columns that `MIGRATIONS` adds to a table. -/
def addedLater (table : String) : List String := (MIGRATIONS.filter (fun m => m.1 = table)).map (fun m => m.2.1)

/-- What a statement leaves behind, also where it found it done. -/
def Holds (db : Database) : Statement → Prop
  | .createTable name columns => ∃ t, db.tables name = some t ∧ ∀ c ∈ columns, c ∉ addedLater name → c ∈ t.columns
  | .createIndex name _ _ => (db.indexes name).isSome = true
  | .addColumn table column _ => ∃ t, db.tables table = some t ∧ column ∈ t.columns
  | .insertSetting key => (db.setting key).isSome = true
  | .createTrigger name _ => (db.triggers name).isSome = true

/-- The tables that there are lack no column but one that was added later. -/
def Grown (db : Database) : Prop :=
  ∀ name columns, .createTable name columns ∈ STATEMENTS → ∀ t, db.tables name = some t →
    ∀ c ∈ columns, c ∉ addedLater name → c ∈ t.columns

/-- The whole schema is there. -/
structure Complete (db : Database) : Prop where
  tables : ∀ name columns, .createTable name columns ∈ STATEMENTS → ∃ t, db.tables name = some t ∧
    ∀ c ∈ columns ++ addedLater name, c ∈ t.columns
  indexes : ∀ name table columns, .createIndex name table columns ∈ STATEMENTS → (db.indexes name).isSome = true
  triggers : ∀ name table, .createTrigger name table ∈ STATEMENTS → (db.triggers name).isSome = true
  setting : (db.setting "ui.advanced_default").isSome = true

/-- What a later database keeps. -/
structure Keeps (db db' : Database) : Prop where
  tables : ∀ name t, db.tables name = some t → ∃ t', db'.tables name = some t' ∧ ∀ c ∈ t.columns, c ∈ t'.columns
  indexes : ∀ name, (db.indexes name).isSome = true → (db'.indexes name).isSome = true
  triggers : ∀ name, (db.triggers name).isSome = true → (db'.triggers name).isSome = true
  setting : ∀ key r, db.setting key = some r → ∃ r', db'.setting key = some r' ∧ cellOf r' "value" = cellOf r "value"

/-- Every row is still there, with the cells of new columns behind its own. -/
def KeepsRows (db db' : Database) : Prop :=
  ∀ name t, db.tables name = some t → ∃ t' cells new, db'.tables name = some t' ∧ t'.rows = t.rows.map (fun r => r ++ cells) ++ new

section
variable {db db' : Database}

theorem Keeps.refl (db : Database) : Keeps db db :=
  ⟨fun _ t h => ⟨t,h,fun _ hc => hc⟩,fun _ h => h,fun _ h => h,fun _ r h => ⟨r,h,rfl⟩⟩

theorem KeepsRows.refl (db : Database) : KeepsRows db db := fun _ t h => ⟨t,[],[],h,by simp⟩

theorem Holds.keeps {s : Statement} (h : Holds db s) (hk : Keeps db db') : Holds db' s := by
  cases s with
  | createTable name columns =>
    obtain ⟨t,ht,hcols⟩ := h
    obtain ⟨t',ht',hsub⟩ := hk.tables name t ht
    exact ⟨t',ht',fun c hc hlater => hsub c (hcols c hc hlater)⟩
  | createIndex name table columns => exact hk.indexes name h
  | addColumn table column definition =>
    obtain ⟨t,ht,hcol⟩ := h
    obtain ⟨t',ht',hsub⟩ := hk.tables table t ht
    exact ⟨t',ht',hsub column hcol⟩
  | insertSetting key =>
    obtain ⟨r,hr⟩ := Option.isSome_iff_exists.mp h
    obtain ⟨r',hr',-⟩ := hk.setting key r hr
    exact Option.isSome_iff_exists.mpr ⟨r',hr'⟩
  | createTrigger name table => exact hk.triggers name h

theorem complete_of_holds (h : ∀ s ∈ STATEMENTS, Holds db s) : Complete db := by
  refine ⟨fun name columns hs => ?_,fun name table columns hs => h _ hs,fun name table hs => h _ hs,h (.insertSetting "ui.advanced_default") ?_⟩
  · obtain ⟨t,ht,hcols⟩ := h _ hs
    refine ⟨t,ht,fun c hc => ?_⟩
    by_cases hlater : c ∈ addedLater name
    · obtain ⟨m,hm,rfl⟩ := List.mem_map.mp hlater
      obtain ⟨hm,hname⟩ := List.mem_filter.mp hm
      have hmem : Statement.addColumn m.1 m.2.1 m.2.2 ∈ STATEMENTS := by
        refine List.mem_append_left _ (List.mem_append_right _ (List.mem_map.mpr ⟨m,hm,rfl⟩))
      obtain ⟨t',ht',hcol⟩ := h _ hmem
      rw [of_decide_eq_true hname, ht] at ht'
      exact Option.some_inj.mp ht' ▸ hcol
    · exact hcols c ((List.mem_append.mp hc).resolve_right hlater) hlater
  · exact List.mem_append_right _ List.mem_cons_self

/-! ## One statement -/

theorem Database.tables_setTable (db : Database) (name n : String) (t : Table) :
    (db.setTable name t).tables n = if n = name then some t else db.tables n := Function.update_apply _ _ _ _

theorem setting_setTable {name : String} (h : name ≠ "settings") (t : Table) (key : String) :
    (db.setTable name t).setting key = db.setting key := by
  unfold Database.setting
  rw [Database.tables_setTable, if_neg (Ne.symm h)]

/-- A table takes the place of one with fewer columns, or of none. -/
theorem keeps_setTable {name : String} {t : Table}
    (hsub : ∀ t₀, db.tables name = some t₀ → ∀ c ∈ t₀.columns, c ∈ t.columns)
    (hset : ∀ key r, db.setting key = some r → ∃ r', (db.setTable name t).setting key = some r' ∧ cellOf r' "value" = cellOf r "value") :
    Keeps db (db.setTable name t) := by
  refine ⟨fun n t₀ ht₀ => ?_,fun _ h => h,fun _ h => h,hset⟩
  rw [Database.tables_setTable]
  by_cases hn : n = name
  · subst hn
    exact ⟨t,if_pos rfl,hsub t₀ ht₀⟩
  · exact ⟨t₀,by rw [if_neg hn, ht₀],fun _ hc => hc⟩

theorem keepsRows_setTable {name : String} {t : Table} (cells : Members) (new : List Members)
    (hrows : ∀ t₀, db.tables name = some t₀ → t.rows = t₀.rows.map (fun r => r ++ cells) ++ new) : KeepsRows db (db.setTable name t) := by
  intro n t₀ ht₀
  rw [Database.tables_setTable]
  by_cases hn : n = name
  · subst hn
    exact ⟨t,cells,new,if_pos rfl,hrows t₀ ht₀⟩
  · exact ⟨t₀,[],[],by rw [if_neg hn, ht₀],by simp⟩

/-- What a statement does: nothing that is there goes, and what it is for is there. -/
structure Done (db : Database) (s : Statement) (db' : Database) : Prop where
  keeps : Keeps db db'
  rows : KeepsRows db db'
  holds : Holds db' s
  created : ∀ name t', db'.tables name = some t' → db.tables name = none → ∃ columns, s = .createTable name columns ∧ t'.columns = columns
  unset : ∀ key, db.setting key = none → s ≠ .insertSetting key → db'.setting key = none

theorem createTable_done (name : String) (columns : List String) (hg : ∀ t, db.tables name = some t →
    ∀ c ∈ columns, c ∉ addedLater name → c ∈ t.columns) : Done db (.createTable name columns) (db.createTable name columns) := by
  unfold Database.createTable
  cases ht : db.tables name with
  | some t =>
    refine ⟨.refl _,.refl _,⟨t,ht,hg t ht⟩,fun n t' hn hnone => ?_,fun _ h _ => h⟩
    cases hn.symm.trans hnone
  | none =>
    have habsurd : ∀ t₀, db.tables name = some t₀ → ∀ P : Prop, P := fun t₀ h => by cases ht.symm.trans h
    refine ⟨keeps_setTable (fun t₀ h => habsurd t₀ h _) (fun key r hr => ?_),keepsRows_setTable [] [] (fun t₀ h => habsurd t₀ h _),
      ⟨_,by rw [if_neg (by simp), Database.tables_setTable, if_pos rfl],fun c hc _ => hc⟩,fun n t' hn hnone => ?_,
      fun key hkey _ => ?_⟩
    · by_cases hname : name = "settings"
      · subst hname
        unfold Database.setting at hr
        rw [ht] at hr
        cases hr
      · exact ⟨r,(setting_setTable hname _ key).trans hr,rfl⟩
    · rw [if_neg (by simp), Database.tables_setTable] at hn
      split at hn
      · next h => exact ⟨columns,by rw [h],by rw [← Option.some_inj.mp hn]⟩
      · cases hn.symm.trans hnone
    · rw [if_neg (by simp)]
      by_cases hname : name = "settings"
      · subst hname
        unfold Database.setting
        rw [Database.tables_setTable, if_pos rfl]
        rfl
      · exact (setting_setTable hname _ key).trans hkey

theorem createIndex_done {table : String} {columns : List String} {t : Table} (ht : db.tables table = some t)
    (hcols : ∀ c ∈ columns, c ∈ t.columns) (name : String) :
    ∃ db', db.createIndex name table columns = some db' ∧ Done db (.createIndex name table columns) db' := by
  unfold Database.createIndex
  rw [ht]
  dsimp only
  by_cases hname : (db.indexes name).isSome = true
  · rw [if_pos hname]
    refine ⟨db,rfl,.refl _,.refl _,hname,fun n t' hn hnone => ?_,fun _ h _ => h⟩
    cases hn.symm.trans hnone
  · rw [if_neg hname, if_pos hcols]
    refine ⟨_,rfl,⟨fun n t₀ h => ⟨t₀,h,fun _ hc => hc⟩,fun n h => ?_,fun _ h => h,fun _ r h => ⟨r,h,rfl⟩⟩,
      fun n t₀ h => ⟨t₀,[],[],h,by simp⟩,?_,fun n t' hn hnone => ?_,fun _ h _ => h⟩
    · dsimp only
      rw [Function.update_apply]
      split
      · rfl
      · exact h
    · change (Function.update db.indexes name _ name).isSome = true
      rw [Function.update_self]
      rfl
    · cases hn.symm.trans hnone

theorem createTrigger_done {table : String} {t : Table} (ht : db.tables table = some t) (name : String) :
    ∃ db', db.createTrigger name table = some db' ∧ Done db (.createTrigger name table) db' := by
  unfold Database.createTrigger
  rw [ht]
  dsimp only
  by_cases hname : (db.triggers name).isSome = true
  · rw [if_pos hname]
    refine ⟨db,rfl,.refl _,.refl _,hname,fun n t' hn hnone => ?_,fun _ h _ => h⟩
    cases hn.symm.trans hnone
  · rw [if_neg hname]
    refine ⟨_,rfl,⟨fun n t₀ h => ⟨t₀,h,fun _ hc => hc⟩,fun _ h => h,fun n h => ?_,fun _ r h => ⟨r,h,rfl⟩⟩,
      fun n t₀ h => ⟨t₀,[],[],h,by simp⟩,?_,fun n t' hn hnone => ?_,fun _ h _ => h⟩
    · dsimp only
      rw [Function.update_apply]
      split
      · rfl
      · exact h
    · change (Function.update db.triggers name _ name).isSome = true
      rw [Function.update_self]
      rfl
    · cases hn.symm.trans hnone

theorem addColumn_done {table column : String} {t : Table} (ht : db.tables table = some t) (hcol : column ∉ t.columns)
    (hname : table ≠ "settings") (definition : String) :
    ∃ db', db.addColumn table column definition = some db' ∧ Done db (.addColumn table column definition) db' := by
  unfold Database.addColumn
  rw [ht]
  dsimp only
  rw [if_neg hcol]
  have hsame : ∀ t₀, db.tables table = some t₀ → t₀ = t := fun t₀ h => Option.some_inj.mp (h.symm.trans ht)
  refine ⟨_,rfl,keeps_setTable (fun t₀ h c hc => ?_) (fun key r hr => ⟨r,(setting_setTable hname _ key).trans hr,rfl⟩),
    keepsRows_setTable [(column,defaultValue definition)] [] (fun t₀ h => ?_),
    ⟨_,Function.update_self _ _ _,List.mem_append_right _ (List.mem_singleton.mpr rfl)⟩,fun n t' hn hnone => ?_,
    fun key hkey _ => (setting_setTable hname _ key).trans hkey⟩
  · exact List.mem_append_left _ (hsame t₀ h ▸ hc)
  · rw [hsame t₀ h, List.append_nil]
  · rw [Database.tables_setTable] at hn
    split at hn
    · next h =>
      rw [h, ht] at hnone
      cases hnone
    · cases hn.symm.trans hnone

theorem insertSetting_done {t : Table} (ht : db.tables "settings" = some t)
    (hcols : ∀ c ∈ ["key","value","updated_at"], c ∈ t.columns) (key value now : String) :
    ∃ db', db.insertSetting key value now = some db' ∧ Done db (.insertSetting key) db' ∧
      (db.setting key = none → db'.setting key = some (Database.settingRow key value now)) := by
  unfold Database.insertSetting
  rw [ht]
  dsimp only
  rw [if_pos hcols]
  by_cases hkey : (db.setting key).isSome = true
  · rw [if_pos hkey]
    refine ⟨db,rfl,⟨.refl _,.refl _,hkey,fun n t' hn hnone => ?_,fun _ h _ => h⟩,fun hnone => ?_⟩
    · cases hn.symm.trans hnone
    · rw [hnone] at hkey
      cases hkey
  · rw [if_neg hkey]
    have hnone : db.setting key = none := by simpa using hkey
    have hfind : ∀ k, (db.setTable "settings" { t with rows := t.rows ++ [Database.settingRow key value now] }).setting k =
        (db.setting k).or ([Database.settingRow key value now].find? (fun r => cellOf r "key" = .text k)) := by
      intro k
      unfold Database.setting
      rw [Database.tables_setTable, if_pos rfl, ht]
      exact List.find?_append
    have hnew : (db.setTable "settings" { t with rows := t.rows ++ [Database.settingRow key value now] }).setting key =
        some (Database.settingRow key value now) := by
      rw [hfind, hnone]
      simp [Database.settingRow, cellOf]
    have hsame : ∀ t₀, db.tables "settings" = some t₀ → t₀ = t := fun t₀ h => Option.some_inj.mp (h.symm.trans ht)
    refine ⟨_,rfl,⟨keeps_setTable (fun t₀ h c hc => hsame t₀ h ▸ hc) (fun k r hr => ⟨r,by rw [hfind, hr]; rfl,rfl⟩),
      keepsRows_setTable [] [Database.settingRow key value now] (fun t₀ h => by simp [hsame t₀ h]),?_,fun n t' hn hno => ?_,
      fun k hk hne => ?_⟩,fun _ => hnew⟩
    · exact Option.isSome_iff_exists.mpr ⟨_,hnew⟩
    · rw [Database.tables_setTable] at hn
      split at hn
      · next h =>
        rw [h, ht] at hno
        cases hno
      · cases hn.symm.trans hno
    · have hkey' : key ≠ k := fun h => hne (by rw [h])
      rw [hfind, hk]
      simp [Database.settingRow, cellOf, hkey']

/-! ## The order of the statements -/

def tableName : Statement → Option String
  | .createTable name _ => some name
  | _ => none

def isTable (name : String) (columns : List String) : Statement → Bool
  | .createTable n cs => n = name ∧ ∀ c ∈ columns, c ∈ cs ∧ c ∉ addedLater name
  | _ => false

/-- The statements before it have made what a statement names. -/
def ready (front : List Statement) : Statement → Bool
  | .createTable _ _ => true
  | .createIndex _ table columns => front.any (isTable table columns)
  | .addColumn table _ _ => table ≠ "settings" ∧ front.any (isTable table [])
  | .insertSetting _ => front.any (isTable "settings" ["key","value","updated_at"])
  | .createTrigger _ table => front.any (isTable table [])

theorem ready_take : ∀ k, (h : k < STATEMENTS.length) → ready (STATEMENTS.take k) STATEMENTS[k] = true := by decide +kernel

theorem tableName_inj : ∀ s ∈ STATEMENTS, ∀ s' ∈ STATEMENTS, tableName s ≠ none → tableName s = tableName s' → s = s' := by decide +kernel

theorem createTable_unique {name : String} {columns columns' : List String} (h : .createTable name columns ∈ STATEMENTS)
    (h' : .createTable name columns' ∈ STATEMENTS) : columns = columns' :=
  (Statement.createTable.inj (tableName_inj _ h _ h' (Option.some_ne_none name) rfl)).2

theorem users_created : .createTable "users" ["id","username","password_hash","totp_secret","role","created_at","last_login_at","disabled",
    "ui_advanced","ui_tour_done"] ∈ STATEMENTS := by decide +kernel

theorem table_of_ready {front : List Statement} {name : String} {columns : List String} (h : front.any (isTable name columns) = true)
    (hfront : ∀ s ∈ front, Holds db s) : ∃ t, db.tables name = some t ∧ ∀ c ∈ columns, c ∈ t.columns := by
  obtain ⟨s,hs,his⟩ := List.any_eq_true.mp h
  cases s with
  | createTable n cs =>
    obtain ⟨rfl,hcols⟩ := of_decide_eq_true his
    obtain ⟨t,ht,hin⟩ := hfront _ hs
    exact ⟨t,ht,fun c hc => hin c (hcols c hc).1 (hcols c hc).2⟩
  | createIndex => cases his
  | addColumn => cases his
  | insertSetting => cases his
  | createTrigger => cases his

/-- A statement whose turn it is does not raise; a column is added only where it is missing. -/
theorem exec_done {k : ℕ} {s : Statement} (hs : STATEMENTS[k]? = some s) (hg : Grown db)
    (hfront : ∀ s ∈ STATEMENTS.take k, Holds db s)
    (hcol : ∀ table column definition, s = .addColumn table column definition → column ∉ db.tableInfo table) (upgrading : Bool) (now : String) :
    ∃ db', db.exec upgrading now s = some db' ∧ Done db s db' ∧ ∀ key, s = .insertSetting key → db.setting key = none →
      db'.setting key = some (Database.settingRow key (if upgrading then "1" else "0") now) := by
  obtain ⟨hk,rfl⟩ := List.getElem?_eq_some_iff.mp hs
  have hready := ready_take k hk
  generalize hs' : STATEMENTS[k] = s at hready hcol
  cases s with
  | createTable name columns =>
    exact ⟨_,rfl,createTable_done name columns (hg name columns (hs' ▸ List.getElem_mem hk)),nofun⟩
  | createIndex name table columns =>
    obtain ⟨t,ht,hcols⟩ := table_of_ready hready hfront
    obtain ⟨db',hexec,hdone⟩ := createIndex_done ht hcols name
    exact ⟨db',hexec,hdone,nofun⟩
  | addColumn table column definition =>
    obtain ⟨hname,hany⟩ := of_decide_eq_true hready
    obtain ⟨t,ht,-⟩ := table_of_ready hany hfront
    have hnew : column ∉ t.columns := by
      have := hcol table column definition rfl
      unfold Database.tableInfo at this
      rwa [ht] at this
    obtain ⟨db',hexec,hdone⟩ := addColumn_done ht hnew hname definition
    exact ⟨db',hexec,hdone,nofun⟩
  | insertSetting key =>
    obtain ⟨t,ht,hcols⟩ := table_of_ready hready hfront
    obtain ⟨db',hexec,hdone,hvalue⟩ := insertSetting_done ht hcols key (if upgrading then "1" else "0") now
    refine ⟨db',hexec,hdone,fun k hk hnone => ?_⟩
    obtain rfl := Statement.insertSetting.inj hk
    exact hvalue hnone
  | createTrigger name table =>
    obtain ⟨t,ht,-⟩ := table_of_ready hready hfront
    obtain ⟨db',hexec,hdone⟩ := createTrigger_done ht name
    exact ⟨db',hexec,hdone,nofun⟩

end

end Protek.Store.Schema
