import Protek.Connection.EnvFile
import Protek.Foundation.Json
import Protek.Foundation.SqlTable

/-! # Configuration bundles

A bundle is the JSON of eight tables, encrypted under a passphrase. The import inserts
its rows one by one and counts the ones it skips.
-/
namespace Protek.Store.Bundle
open Foundation Foundation.Json Foundation.SqlTable
open Protek.Connection (isNameStart isNameChar wholeText)

/-! ## The exported tables -/

/-- `TEXT NOT NULL`. -/
def required (name : String) : Column := ⟨name,.text,true,.null⟩

/-- `TEXT NOT NULL DEFAULT …`. -/
def requiredText (name value : String) : Column := ⟨name,.text,true,.text value⟩

/-- `TEXT DEFAULT NULL`. -/
def optionalText (name : String) : Column := ⟨name,.text,false,.null⟩

/-- `TEXT DEFAULT ''`. -/
def plainText (name : String) : Column := ⟨name,.text,false,.text ""⟩

/-- `INTEGER NOT NULL DEFAULT …`. -/
def requiredInt (name : String) (value : ℤ) : Column := ⟨name,.integer,true,.int value⟩

/-- `INTEGER DEFAULT …`. -/
def optionalInt (name : String) (value : SqlValue) : Column := ⟨name,.integer,false,value⟩

def unchecked : Members → Bool := fun _ => true

def users : TableDef where
  idColumn := some "id"
  columns := [required "username",required "password_hash",required "totp_secret",requiredText "role" "admin",
    required "created_at",optionalText "last_login_at",requiredInt "disabled" 0,optionalInt "ui_advanced" .null,
    optionalInt "ui_tour_done" .null]
  uniques := [["username"]]
  check := unchecked

def sources : TableDef where
  idColumn := some "id"
  columns := [required "name",required "url",required "api_key",requiredInt "enabled" 1,optionalText "last_pull_at",
    optionalInt "last_pull_n" (.int 0),plainText "last_error",required "created_at",optionalText "backoff_until",
    requiredInt "paused" 0,requiredInt "confidence" 1,requiredInt "last_pull_ms" 0]
  uniques := [["name"]]
  check := unchecked

/-- `CHECK (kind IN ('ip','cidr','asn','country'))`, which NULL passes. -/
def isKind (cells : Members) : Bool :=
  cellOf cells "kind" ∈ [.null,.text "ip",.text "cidr",.text "asn",.text "country"]

def whitelist : TableDef where
  idColumn := some "id"
  columns := [required "kind",required "value",plainText "note",optionalText "expires_at",required "created_at"]
  uniques := [["kind","value"]]
  check := isKind

def bouncerTargets : TableDef where
  idColumn := some "id"
  columns := [required "name",required "kind",requiredText "config_json" "\x7b\x7d",requiredInt "enabled" 1,
    requiredInt "dry_run" 1,optionalText "last_sync_at",plainText "last_error",required "created_at"]
  uniques := [["name"]]
  check := unchecked

def webhookSubs : TableDef where
  idColumn := some "id"
  columns := [required "name",required "url",requiredText "hmac_secret" "",requiredText "event_mask" "*",
    requiredInt "enabled" 1,required "created_at",optionalText "last_ok_at",plainText "last_error",
    requiredInt "consec_failures" 0]
  uniques := [["name"]]
  check := unchecked

def apiTokens : TableDef where
  idColumn := some "id"
  columns := [required "name",required "token_hash",required "token_prefix",requiredText "scopes" "read",
    requiredText "created_by" "",required "created_at",optionalText "expires_at",optionalText "last_used_at",
    plainText "last_used_ip",requiredInt "disabled" 0]
  uniques := [["token_hash"]]
  check := unchecked

/-- The key of `settings` may be NULL. -/
def settings : TableDef where
  idColumn := none
  columns := [optionalText "key",required "value",required "updated_at"]
  uniques := [["key"]]
  check := unchecked

def alertSilences : TableDef where
  idColumn := some "id"
  columns := [required "pattern",required "until_at",requiredText "reason" "",required "created_at",
    requiredText "created_by" ""]
  uniques := []
  check := unchecked

def exportedTables : List (String × TableDef) :=
  [("users",users),("sources",sources),("whitelist",whitelist),("bouncer_targets",bouncerTargets),
    ("webhook_subs",webhookSubs),("api_tokens",apiTokens),("settings",settings),("alert_silences",alertSilences)]

def tableDef (name : String) : Option TableDef := (exportedTables.find? (fun p => p.1 = name)).map Prod.snd

abbrev Db := String → Table

/-! ## The export -/

abbrev Bytes := List UInt8

def utf8 (s : String) : Bytes := s.toUTF8.data.toList

/-- scrypt, AES-GCM and what `json.loads` does with bytes and with a float that is compared with 1. -/
structure Primitives where
  deriveKey : String → Bytes → Bytes
  encrypt : Bytes → Bytes → Bytes → Bytes → Bytes
  decrypt : Bytes → Bytes → Bytes → Bytes → Option Bytes
  decode : Bytes → Option String
  floatIsOne : String → Bool

/-- AES-GCM decrypts what it encrypted and adds a tag, and a JSON object in UTF-8 is read as such. -/
structure Primitives.Lawful (K : Primitives) : Prop where
  decrypt_encrypt : ∀ key nonce plain aad, K.decrypt key nonce (K.encrypt key nonce plain aad) aad = some plain
  tag : ∀ key nonce plain aad, (K.encrypt key nonce plain aad).length = plain.length + 16
  decode_utf8 : ∀ s, ['\x7b','\x22'] <+: s.toList → K.decode (utf8 s) = some s

/-- `PROTEK01`. -/
def magic : Bytes := [0x50,0x52,0x4f,0x54,0x45,0x4b,0x30,0x31]

def jsonOf : SqlValue → Value
  | .null => .null
  | .int n => .int n
  | .real literal => .float literal
  | .text s => .str s

def rowObject (d : TableDef) (r : Row) : Value := .obj ((selectRow d r).map (fun p => (p.1,jsonOf p.2)))

/-- `_dump_table`. -/
def dumpTable (d : TableDef) (t : Table) : Value := .arr (t.rows.map (rowObject d))

def dumpedTables (db : Db) : List (String × Value) := exportedTables.map (fun p => (p.1,dumpTable p.2 (db p.1)))

def buildPayload (now : String) (db : Db) : Value :=
  .obj [("format_version",.int 1),("exported_at",.str now),("tables",.obj (dumpedTables db))]

/-- The file of an encrypted payload. -/
def sealed (K : Primitives) (passphrase : String) (salt nonce : Bytes) (payload : Value) : Bytes :=
  magic ++ salt ++ nonce ++ K.encrypt (K.deriveKey passphrase salt) nonce (utf8 (dumps payload)) magic

/-- `export_bundle`, `none` where it raises; salt and nonce are random bytes. -/
def exportBundle (K : Primitives) (passphrase : String) (salt nonce : Bytes) (now : String) (db : Db) : Option Bytes :=
  if passphrase.length < 12 then none else some (sealed K passphrase salt nonce (buildPayload now db))

/-! ## The import -/

/-- `parse_bundle`, `none` where it raises. -/
def parseBundle (K : Primitives) (blob : Bytes) (passphrase : String) : Option Value :=
  if blob.length < 8 + 16 + 12 + 16 ∨ blob.take 8 ≠ magic then none
  else
    let salt := (blob.drop 8).take 16
    let nonce := (blob.drop 24).take 12
    ((K.decrypt (K.deriveKey passphrase salt) nonce (blob.drop 36) magic).bind K.decode).bind loads

/-- The column that a name of `_IDENT_RE` stands for: the pattern lets a line feed pass at the end. -/
def identName (c : String) : Option String :=
  if wholeText (fun cs => cs.head?.any isNameStart && cs.all isNameChar) c.toList then
    some (String.ofList (if c.toList.getLast? = some '\n' then c.toList.dropLast else c.toList))
  else none

/-- What sqlite3 binds, `none` where it raises. -/
def bindValue : Value → Option SqlValue
  | .null => some .null
  | .bool b => some (.int (if b then 1 else 0))
  | .int n => if -(2 ^ 63) ≤ n ∧ n < 2 ^ 63 then some (.int n) else none
  | .float literal => some (if literal = "NaN" then .null else .real literal)
  | .str s => some (.text s)
  | _ => none

/-- The named values of a row, `none` where it is skipped. -/
def boundMembers (members : List (String × Value)) : Option Members :=
  members.mapM (fun p => (identName p.1).bind (fun name => (bindValue p.2).map (fun v => (name,v))))

structure Counts where
  inserted : ℕ
  replaced : ℕ
  skipped : ℕ
  sourceRows : ℕ
  deriving DecidableEq, Repr

def Counts.start (sourceRows : ℕ) : Counts := ⟨0,0,0,sourceRows⟩

def Counts.add (n : Counts) (overwrite counted : Bool) : Counts :=
  if !counted then { n with skipped := n.skipped + 1 }
  else if overwrite then { n with replaced := n.replaced + 1 }
  else { n with inserted := n.inserted + 1 }

def verb (overwrite : Bool) : OnConflict := if overwrite then .replace else .ignore

section
variable (E : Engine) (d : TableDef) (overwrite : Bool)

def importRow (t : Table) (members : List (String × Value)) : Table × Bool :=
  match boundMembers members with
  | none => (t,false)
  | some bound => insert E d (verb overwrite) t bound

/-- The loop over the rows of a table; it raises at a row that is no object. -/
def importRows : List Value → Table → Counts → Table × Counts × Bool
  | [], t, n => (t,n,false)
  | .obj members :: rest, t, n =>
    importRows rest (importRow E d overwrite t members).1 (n.add overwrite (importRow E d overwrite t members).2)
  | _ :: _, t, n => (t,n,true)

/-- What `for row in rows` goes through, `none` where it raises. -/
def rowsOf : Value → Option (List Value)
  | .arr l => some l
  | .obj members => some (members.map (fun p => .str p.1))
  | .str s => some (s.toList.map (fun c => .str (String.singleton c)))
  | .lone points => some (points.map (fun u => .lone [u]))
  | _ => none

def importTable (rows : Value) (t : Table) : Table × Counts × Bool :=
  let start := if overwrite then { t with rows := [] } else t
  match rowsOf rows with
  | none => (start,Counts.start 0,true)
  | some items => importRows E d overwrite items start (Counts.start items.length)

end

/-- The database after an import and its summary, `none` where it raises. -/
structure Imported where
  db : Db
  summary : Option (List (String × Counts))

section
variable (E : Engine) (overwrite : Bool)

def importTables : List (String × Value) → Db → List (String × Counts) → Imported
  | [], db, summary => ⟨db,some summary⟩
  | (name,rows) :: rest, db, summary =>
    match tableDef name with
    | none => importTables rest db summary
    | some d =>
      match importTable E d overwrite rows (db name) with
      | (t,n,raised) =>
        if raised then ⟨Function.update db name t,none⟩
        else importTables rest (Function.update db name t) (summary ++ [(name,n)])

def isOne (K : Primitives) : Value → Bool
  | .int n => n = 1
  | .bool b => b
  | .float literal => K.floatIsOne literal
  | _ => false

def memberOf (members : List (String × Value)) (name : String) : Option Value :=
  (members.find? (fun p => p.1 = name)).map Prod.snd

def importPayload (K : Primitives) (payload : Value) (db : Db) : Imported :=
  match payload with
  | .obj members =>
    if (memberOf members "format_version").any (isOne K) then
      match memberOf members "tables" with
      | none => ⟨db,some []⟩
      | some (.obj tables) => importTables E overwrite tables db []
      | some _ => ⟨db,none⟩
    else ⟨db,none⟩
  | _ => ⟨db,none⟩

def importBundle (K : Primitives) (blob : Bytes) (passphrase : String) (db : Db) : Imported :=
  match parseBundle K blob passphrase with
  | none => ⟨db,none⟩
  | some payload => importPayload E overwrite K payload db

end

/-! ## Rows through JSON -/

/-- NULL, a 64-bit integer or a text. -/
def Bindable : SqlValue → Prop
  | .null => True
  | .int n => -(2 ^ 63) ≤ n ∧ n < 2 ^ 63
  | .real _ => False
  | .text _ => True

/-- The content of a table that meets its constraints. -/
structure Exportable (E : Engine) (d : TableDef) (rows : List Row) : Prop where
  wellFormed : WellFormed E d rows
  rowids : ∀ r ∈ rows, -(2 ^ 63) ≤ r.rowid ∧ r.rowid < 2 ^ 63
  values : ∀ r ∈ rows, ∀ p ∈ r.cells, Bindable p.2

theorem bindValue_jsonOf {v : SqlValue} (h : Bindable v) : bindValue (jsonOf v) = some v := by
  cases v with
  | null => rfl
  | int n => exact if_pos h
  | real literal => cases h
  | text s => rfl

theorem plain_jsonOf {v : SqlValue} (h : Bindable v) : (jsonOf v).Plain := by
  cases v with
  | real literal => cases h
  | null => trivial
  | int n => trivial
  | text s => trivial

/-- The columns of the eight tables are identifiers, and differ in more than their case. -/
theorem regular_exported : ∀ x ∈ exportedTables, Regular x.2 ∧
    ∀ name ∈ x.2.idColumn.toList ++ x.2.columns.map Column.name, identName name = some name := by
  have hnames : ∀ x ∈ exportedTables, (x.2.columns.map Column.name).Pairwise (fun a b => sameName a b = false) := by decide +kernel
  have hrowid : ∀ x ∈ exportedTables, ∀ c ∈ x.2.columns.map Column.name, isRowidName x.2 c = false := by decide +kernel
  have hident : ∀ x ∈ exportedTables, ∀ name ∈ x.2.idColumn.toList ++ x.2.columns.map Column.name, identName name = some name := by
    decide +kernel
  have hlen : ∀ x ∈ exportedTables, x.2.columns.length ≠ 0 := by decide
  exact fun x hx => ⟨⟨hnames x hx,fun c hc => hrowid x hx _ (List.mem_map_of_mem hc),fun hnil => hlen x hx (by rw [hnil]; rfl)⟩,hident x hx⟩

section
variable {E : Engine} {d : TableDef} {rows : List Row} {t : Table}

theorem names_selectRow {r : Row} (hnames : r.cells.map Prod.fst = d.columns.map Column.name) :
    (selectRow d r).map Prod.fst = d.idColumn.toList ++ d.columns.map Column.name := by
  rw [selectRow, List.map_append, hnames, List.map_map]
  exact congrArg (· ++ _) (List.map_id _)

theorem bindable_selectRow (h : Exportable E d rows) {r : Row} (hr : r ∈ rows) : ∀ p ∈ selectRow d r, Bindable p.2 := by
  intro p hp
  rcases List.mem_append.mp hp with hp | hp
  · obtain ⟨c,-,rfl⟩ := List.mem_map.mp hp
    exact h.rowids r hr
  · exact h.values r hr p hp

theorem mapM_map_self {α β : Type*} {f : α → Option β} {g : β → α} {l : List β} (h : ∀ c ∈ l, f (g c) = some c) :
    (l.map g).mapM f = some l := by
  induction l with
  | nil => rfl
  | cons c l ih =>
    rw [List.map_cons, List.mapM_cons, h c List.mem_cons_self, ih (fun e he => h e (List.mem_cons_of_mem _ he))]
    rfl

/-- A row comes back from its object as it was. -/
theorem boundMembers_selectRow (hident : ∀ name ∈ d.idColumn.toList ++ d.columns.map Column.name, identName name = some name)
    (h : Exportable E d rows) {r : Row} (hr : r ∈ rows) :
    boundMembers ((selectRow d r).map (fun p => (p.1,jsonOf p.2))) = some (selectRow d r) := by
  unfold boundMembers
  refine mapM_map_self (fun p hp => ?_)
  have hname : p.1 ∈ d.idColumn.toList ++ d.columns.map Column.name := by
    rw [← names_selectRow (h.wellFormed.names r hr)]
    exact List.mem_map_of_mem hp
  dsimp only
  rw [hident _ hname, bindValue_jsonOf (bindable_selectRow h hr p hp)]
  rfl

theorem importRows_rowObject (hident : ∀ name ∈ d.idColumn.toList ++ d.columns.map Column.name, identName name = some name)
    (h : Exportable E d rows) (overwrite : Bool) {l : List Row} (hl : ∀ r ∈ l, r ∈ rows) (t : Table) (n : Counts) :
    ∃ n', importRows E d overwrite (l.map (rowObject d)) t n = (insertAll E d (verb overwrite) t (l.map (selectRow d)),n',false) := by
  induction l generalizing t n with
  | nil => exact ⟨n,rfl⟩
  | cons r l ih =>
    have hrow : importRow E d overwrite t ((selectRow d r).map (fun p => (p.1,jsonOf p.2))) =
        insert E d (verb overwrite) t (selectRow d r) := by
      rw [importRow, boundMembers_selectRow hident h (hl r List.mem_cons_self)]
    rw [List.map_cons, rowObject, importRows, hrow]
    exact ih (fun s hs => hl s (List.mem_cons_of_mem _ hs)) _ _

end

/-! ## One table after the other -/

/-- A list of objects. -/
def Shaped (rows : Value) : Prop := ∃ items, rowsOf rows = some items ∧ ∀ item ∈ items, ∃ members, item = .obj members

section
variable {E : Engine} {d : TableDef} {overwrite : Bool}

theorem importRows_shaped {items : List Value} (h : ∀ item ∈ items, ∃ members, item = .obj members) (t : Table) (n : Counts) :
    (importRows E d overwrite items t n).2.2 = false := by
  induction items generalizing t n with
  | nil => rfl
  | cons item items ih =>
    obtain ⟨members,rfl⟩ := h item List.mem_cons_self
    exact ih (fun i hi => h i (List.mem_cons_of_mem _ hi)) _ _

theorem importTable_shaped {rows : Value} (h : Shaped rows) (t : Table) : (importTable E d overwrite rows t).2.2 = false := by
  obtain ⟨items,hitems,hobj⟩ := h
  unfold importTable
  rw [hitems]
  exact importRows_shaped hobj _ _

/-- What an import of well-shaped tables makes of a database. -/
structure ImportedTables (E : Engine) (overwrite : Bool) (tables : List (String × Value)) (db : Db) (out : Imported)
    (before : List (String × Counts)) : Prop where
  others : ∀ name, name ∉ tables.map Prod.fst ∨ tableDef name = none → out.db name = db name
  imported : ∀ p ∈ tables, ∀ d, tableDef p.1 = some d → out.db p.1 = (importTable E d overwrite p.2 (db p.1)).1
  summary : ∃ entries, out.summary = some entries ∧ (∀ e ∈ before, e ∈ entries) ∧
    ∀ p ∈ tables, ∀ d, tableDef p.1 = some d → (p.1,(importTable E d overwrite p.2 (db p.1)).2.1) ∈ entries

theorem importTables_spec {tables : List (String × Value)} (hnodup : (tables.map Prod.fst).Nodup)
    (hshaped : ∀ p ∈ tables, (tableDef p.1).isSome = true → Shaped p.2) (db : Db) (before : List (String × Counts)) :
    ImportedTables E overwrite tables db (importTables E overwrite tables db before) before := by
  induction tables generalizing db before with
  | nil =>
    exact ⟨fun _ _ => rfl,fun p hp => absurd hp List.not_mem_nil,before,rfl,fun _ he => he,fun p hp => absurd hp List.not_mem_nil⟩
  | cons q rest ih =>
    obtain ⟨name,rows⟩ := q
    obtain ⟨hname,hrest⟩ := List.nodup_cons.mp hnodup
    have hshaped' : ∀ p ∈ rest, (tableDef p.1).isSome = true → Shaped p.2 := fun p hp => hshaped p (List.mem_cons_of_mem _ hp)
    have hne : ∀ p ∈ rest, p.1 ≠ name := fun p hp heq => hname (List.mem_map.mpr ⟨p,hp,heq⟩)
    unfold importTables
    cases hdef : tableDef name with
    | none =>
      obtain ⟨hothers,htables,entries,hsummary,hbefore,hcounts⟩ := ih hrest hshaped' db before
      refine ⟨fun m hm => hothers m ?_,fun p hp d hd => ?_,entries,hsummary,hbefore,fun p hp d hd => ?_⟩
      · exact hm.imp_left (fun hnot hmem => hnot (List.mem_cons_of_mem _ hmem))
      · rcases List.mem_cons.mp hp with rfl | hp
        · cases hdef.symm.trans hd
        · exact htables p hp d hd
      · rcases List.mem_cons.mp hp with rfl | hp
        · cases hdef.symm.trans hd
        · exact hcounts p hp d hd
    | some d =>
      have hdone : (importTable E d overwrite rows (db name)).2.2 = false :=
        importTable_shaped (hshaped (name,rows) List.mem_cons_self (by rw [hdef]; rfl)) _
      dsimp only
      rw [hdone, if_neg Bool.false_ne_true]
      obtain ⟨hothers,htables,entries,hsummary,hbefore,hcounts⟩ := ih hrest hshaped'
        (Function.update db name (importTable E d overwrite rows (db name)).1) (before ++ [(name,(importTable E d overwrite rows (db name)).2.1)])
      refine ⟨fun m hm => ?_,fun p hp e he => ?_,entries,hsummary,fun e he => hbefore e (List.mem_append_left _ he),fun p hp e he => ?_⟩
      · have hmne : m ≠ name := by
          rintro rfl
          rcases hm with hm | hm
          · exact hm List.mem_cons_self
          · cases hdef.symm.trans hm
        have hm' := hothers m (hm.imp_left (fun hnot hmem => hnot (List.mem_cons_of_mem _ hmem)))
        rwa [Function.update_of_ne hmne] at hm'
      · rcases List.mem_cons.mp hp with rfl | hp
        · cases hdef.symm.trans he
          have hself := hothers name (Or.inl hname)
          rwa [Function.update_self] at hself
        · have hp' := htables p hp e he
          rwa [Function.update_of_ne (hne p hp)] at hp'
      · rcases List.mem_cons.mp hp with rfl | hp
        · cases hdef.symm.trans he
          exact hbefore _ (List.mem_append_right _ (List.mem_singleton_self _))
        · have hp' := hcounts p hp e he
          rwa [Function.update_of_ne (hne p hp)] at hp'

end

/-! ## An exported bundle -/

section
variable {K : Primitives} {E : Engine} {passphrase now : String} {salt nonce : Bytes} {src : Db}

theorem plain_rowObject {d : TableDef} {rows : List Row} (hreg : Regular d) (hid : ∀ c ∈ d.idColumn, isRowidName d c = true)
    (h : Exportable E d rows) {r : Row} (hr : r ∈ rows) : (rowObject d r).Plain := by
  refine ⟨?_,plainMembers_iff.mpr (fun p hp => ?_)⟩
  · rw [List.map_map]
    change ((selectRow d r).map Prod.fst).Nodup
    rw [names_selectRow (h.wellFormed.names r hr)]
    refine List.nodup_append.mpr ⟨?_,hreg.nodup,?_⟩
    · cases d.idColumn <;> simp
    · rintro a ha b hb rfl
      obtain ⟨c,hc,rfl⟩ := List.mem_map.mp hb
      have hrow := hid c.name (by simpa using ha)
      rw [hreg.notRowid c hc] at hrow
      cases hrow
  · obtain ⟨q,hq,rfl⟩ := List.mem_map.mp hp
    exact plain_jsonOf (bindable_selectRow h hr q hq)

theorem isRowidName_idColumn {d : TableDef} : ∀ c ∈ d.idColumn, isRowidName d c = true :=
  fun c hc => List.any_eq_true.mpr ⟨c,List.mem_append_left _ (Option.mem_toList.mpr hc),sameName_self c⟩

theorem plain_buildPayload (hsrc : ∀ x ∈ exportedTables, Exportable E x.2 (src x.1).rows) : (buildPayload now src).Plain := by
  have hdump : ∀ x ∈ exportedTables, (dumpTable x.2 (src x.1)).Plain := by
    intro x hx
    refine plainAll_iff.mpr (fun v hv => ?_)
    obtain ⟨r,hr,rfl⟩ := List.mem_map.mp hv
    exact plain_rowObject (regular_exported x hx).1 isRowidName_idColumn (hsrc x hx) hr
  have htables : (Value.obj (dumpedTables src)).Plain := by
    refine ⟨?_,plainMembers_iff.mpr (fun p hp => ?_)⟩
    · rw [dumpedTables, List.map_map]
      change (exportedTables.map Prod.fst).Nodup
      decide
    · obtain ⟨x,hx,rfl⟩ := List.mem_map.mp hp
      exact hdump x hx
  refine ⟨by simp,plainMembers_iff.mpr (fun p hp => ?_)⟩
  simp only [List.mem_cons, List.not_mem_nil, or_false] at hp
  rcases hp with rfl | rfl | rfl
  · trivial
  · trivial
  · exact htables

/-- A payload is parsed again under its passphrase. -/
theorem parseBundle_sealed (hK : K.Lawful) (hsalt : salt.length = 16) (hnonce : nonce.length = 12) {payload : Value}
    (hplain : payload.Plain) (hbrace : ['\x7b','\x22'] <+: (dumps payload).toList) :
    parseBundle K (sealed K passphrase salt nonce payload) passphrase = some payload := by
  unfold sealed
  generalize hct : K.encrypt (K.deriveKey passphrase salt) nonce (utf8 (dumps payload)) magic = ct
  have htag : 16 ≤ ct.length := by
    rw [← hct, hK.tag]
    omega
  have hmagic : magic.length = 8 := rfl
  have hlen : ¬ (magic ++ salt ++ nonce ++ ct).length < 8 + 16 + 12 + 16 := by
    simp only [List.length_append, hmagic, hsalt, hnonce]
    omega
  have htake : (magic ++ salt ++ nonce ++ ct).take 8 = magic := by
    rw [List.append_assoc, List.append_assoc]
    exact List.take_left' hmagic
  have hdrop8 : (magic ++ salt ++ nonce ++ ct).drop 8 = salt ++ (nonce ++ ct) := by
    rw [List.append_assoc, List.append_assoc]
    exact List.drop_left' hmagic
  have hdrop24 : (magic ++ salt ++ nonce ++ ct).drop 24 = nonce ++ ct := by
    rw [List.append_assoc]
    exact List.drop_left' (by rw [List.length_append, hmagic, hsalt])
  have hdrop36 : (magic ++ salt ++ nonce ++ ct).drop 36 = ct :=
    List.drop_left' (by simp only [List.length_append, hmagic, hsalt, hnonce])
  unfold parseBundle
  rw [if_neg (not_or.mpr ⟨hlen,not_not.mpr htake⟩)]
  dsimp only
  rw [hdrop8, hdrop24, hdrop36, List.take_left' hsalt, List.take_left' hnonce, ← hct, hK.decrypt_encrypt, Option.bind_some,
    hK.decode_utf8 _ hbrace, Option.bind_some, loads_dumps hplain]

/-- What was exported is parsed again under its passphrase. -/
theorem parseBundle_export (hK : K.Lawful) (hp : 12 ≤ passphrase.length) (hsalt : salt.length = 16) (hnonce : nonce.length = 12)
    (hsrc : ∀ x ∈ exportedTables, Exportable E x.2 (src x.1).rows) :
    ∃ blob, exportBundle K passphrase salt nonce now src = some blob ∧
      parseBundle K blob passphrase = some (buildPayload now src) := by
  have hbrace : ['\x7b','\x22'] <+: (dumps (buildPayload now src)).toList := by
    rw [dumps, String.toList_ofList, buildPayload, dumpsValue, dumpsStr]
    exact ⟨_,rfl⟩
  exact ⟨_,if_neg (by omega),parseBundle_sealed hK hsalt hnonce (@plain_buildPayload E now src hsrc) hbrace⟩

theorem tableDef_of_mem {x : String × TableDef} (hx : x ∈ exportedTables) : tableDef x.1 = some x.2 := by
  rw [tableDef, KeyedTable.find_of_mem (by decide) hx]
  rfl

theorem tableDef_eq_none {name : String} (h : name ∉ exportedTables.map Prod.fst) : tableDef name = none := by
  rw [tableDef, Option.map_eq_none_iff, List.find?_eq_none]
  exact fun x hx heq => h (List.mem_map.mpr ⟨x,hx,by simpa using heq⟩)

theorem importPayload_build (overwrite : Bool) (db : Db) :
    importPayload E overwrite K (buildPayload now src) db = importTables E overwrite (dumpedTables src) db [] := by
  have hversion : (memberOf [("format_version",Value.int 1),("exported_at",.str now),("tables",.obj (dumpedTables src))]
      "format_version").any (isOne K) = true := rfl
  have htables : memberOf [("format_version",Value.int 1),("exported_at",.str now),("tables",.obj (dumpedTables src))] "tables" =
      some (.obj (dumpedTables src)) := by simp [memberOf]
  change (if (memberOf [("format_version",Value.int 1),("exported_at",.str now),("tables",.obj (dumpedTables src))] "format_version").any (isOne K) = true
    then (match memberOf [("format_version",Value.int 1),("exported_at",.str now),("tables",.obj (dumpedTables src))] "tables" with
      | none => (⟨db,some []⟩ : Imported)
      | some (.obj tables) => importTables E overwrite tables db []
      | some _ => ⟨db,none⟩) else ⟨db,none⟩) = _
  rw [if_pos hversion, htables]

theorem shaped_dumpTable (d : TableDef) (t : Table) : Shaped (dumpTable d t) := by
  refine ⟨_,rfl,fun item hitem => ?_⟩
  obtain ⟨r,-,rfl⟩ := List.mem_map.mp hitem
  exact ⟨_,rfl⟩

theorem importTable_dump {x : String × TableDef} (hx : x ∈ exportedTables) {rows : Table} (h : Exportable E x.2 rows.rows) (overwrite : Bool)
    (t : Table) : (importTable E x.2 overwrite (dumpTable x.2 rows) t).1 =
      insertAll E x.2 (verb overwrite) (if overwrite then { t with rows := [] } else t) (rows.rows.map (selectRow x.2)) := by
  obtain ⟨n,hn⟩ := importRows_rowObject (regular_exported x hx).2 h overwrite (fun _ hr => hr)
    (if overwrite then { t with rows := [] } else t) (Counts.start (rows.rows.map (rowObject x.2)).length)
  exact congrArg Prod.fst hn

/-- A row that was added from a dumped table shows what one of its rows shows. -/
theorem selectRow_of_made {d : TableDef} (hreg : Regular d) {rows : List Row} (h : Exportable E d rows) {mode : OnConflict} {r : Row}
    (hmade : Made E d mode (rows.map (selectRow d)) r) : selectRow d r ∈ rows.map (selectRow d) := by
  obtain ⟨t,members,hmem,⟨rowid,htarget,rfl⟩,-⟩ := hmade
  obtain ⟨s,hs,rfl⟩ := List.mem_map.mp hmem
  rw [targetRowid_selectRow hreg (h.wellFormed.names s hs)] at htarget
  have hid : d.idColumn.isSome = true → rowid = s.rowid := by
    intro hsome
    rw [if_pos hsome] at htarget
    exact (Option.some.inj htarget).symm
  rw [rowFor_selectRow hreg h.wellFormed hs, selectRow_mk s hid]
  exact hmem

end

/-- The eight tables show what they show in the other database, and no other table is changed. -/
def Restored (src db out : Db) : Prop :=
  (∀ x ∈ exportedTables, (out x.1).rows.map (selectRow x.2) = (src x.1).rows.map (selectRow x.2)) ∧
  ∀ name, name ∉ exportedTables.map Prod.fst → out name = db name

/-- Every row is still there, and the new ones show what rows of the other database show. -/
def Extended (src db out : Db) : Prop :=
  (∀ x ∈ exportedTables, ∃ added, (out x.1).rows = (db x.1).rows ++ added ∧
    ∀ r ∈ added, selectRow x.2 r ∈ (src x.1).rows.map (selectRow x.2)) ∧
  ∀ name, name ∉ exportedTables.map Prod.fst → out name = db name

/-- An exported bundle restores the eight tables where it overwrites, and only adds rows where it does not. -/
theorem bundle_reproduces (K : Primitives) (E : Engine) (hK : K.Lawful) (passphrase : String) (hp : 12 ≤ passphrase.length)
    (salt nonce : Bytes) (hsalt : salt.length = 16) (hnonce : nonce.length = 12) (now : String) (src db : Db)
    (hsrc : ∀ x ∈ exportedTables, Exportable E x.2 (src x.1).rows) :
    ∃ blob, exportBundle K passphrase salt nonce now src = some blob ∧
      ((importBundle E true K blob passphrase db).summary.isSome = true ∧
        Restored src db (importBundle E true K blob passphrase db).db) ∧
      ((importBundle E false K blob passphrase db).summary.isSome = true ∧
        Extended src db (importBundle E false K blob passphrase db).db) := by
  obtain ⟨blob,hexport,hparse⟩ := @parseBundle_export K E passphrase now salt nonce src hK hp hsalt hnonce hsrc
  have himport : ∀ overwrite, importBundle E overwrite K blob passphrase db = importTables E overwrite (dumpedTables src) db [] := by
    intro overwrite
    rw [importBundle, hparse]
    exact importPayload_build overwrite db
  have hspec : ∀ overwrite, ImportedTables E overwrite (dumpedTables src) db (importTables E overwrite (dumpedTables src) db []) [] := by
    intro overwrite
    refine importTables_spec ?_ (fun p hp _ => ?_) db []
    · rw [dumpedTables, List.map_map]
      change (exportedTables.map Prod.fst).Nodup
      decide
    · obtain ⟨x,-,rfl⟩ := List.mem_map.mp hp
      exact shaped_dumpTable _ _
  have hothers : ∀ overwrite name, name ∉ exportedTables.map Prod.fst → (importTables E overwrite (dumpedTables src) db []).db name = db name :=
    fun overwrite name hname => (hspec overwrite).others name (Or.inr (tableDef_eq_none hname))
  have htable : ∀ overwrite, ∀ x ∈ exportedTables, (importTables E overwrite (dumpedTables src) db []).db x.1 =
      insertAll E x.2 (verb overwrite) (if overwrite then { db x.1 with rows := [] } else db x.1) ((src x.1).rows.map (selectRow x.2)) := by
    intro overwrite x hx
    have hrow := (hspec overwrite).imported (x.1,dumpTable x.2 (src x.1)) (List.mem_map_of_mem hx) x.2 (tableDef_of_mem hx)
    rw [hrow]
    exact importTable_dump hx (hsrc x hx) overwrite (db x.1)
  have hsome : ∀ overwrite, (importTables E overwrite (dumpedTables src) db []).summary.isSome = true := by
    intro overwrite
    obtain ⟨entries,hentries,-⟩ := (hspec overwrite).summary
    rw [hentries]
    rfl
  refine ⟨blob,hexport,?_⟩
  rw [himport, himport]
  refine ⟨⟨hsome true,fun x hx => ?_,hothers true⟩,⟨hsome false,fun x hx => ?_,hothers false⟩⟩
  · rw [htable true x hx]
    exact (insertAll_select (regular_exported x hx).1 (hsrc x hx).wellFormed rfl).selected
  · rw [htable false x hx]
    obtain ⟨added,hrows,hmade⟩ := insertAll_ignore E x.2 (db x.1) ((src x.1).rows.map (selectRow x.2))
    exact ⟨added,hrows,fun r hr => selectRow_of_made (regular_exported x hx).1 (hsrc x hx) (hmade r hr)⟩

/-- A cipher that only adds its tag. -/
def clearPrimitives : Primitives where
  deriveKey _ _ := []
  encrypt _ _ plain _ := plain ++ List.replicate 16 0
  decrypt _ _ ct _ := some (ct.take (ct.length - 16))
  decode b := String.fromUTF8? ⟨b.toArray⟩
  floatIsOne literal := literal = "1.0"

theorem clearPrimitives_lawful : clearPrimitives.Lawful := by
  refine ⟨fun key nonce plain aad => ?_,fun key nonce plain aad => ?_,fun s _ => ?_⟩
  · change some ((plain ++ List.replicate 16 0).take ((plain ++ List.replicate 16 0).length - 16)) = some plain
    rw [List.length_append, List.length_replicate, Nat.add_sub_cancel, List.take_left]
  · change (plain ++ List.replicate 16 0).length = _
    rw [List.length_append, List.length_replicate]
  · change String.fromUTF8? ⟨(utf8 s).toArray⟩ = some s
    have hbytes : (⟨(utf8 s).toArray⟩ : ByteArray) = s.toByteArray := rfl
    rw [hbytes, String.fromUTF8?, dif_pos s.isValidUTF8]
    rfl

/-- Conversion between integers and their texts. -/
def plainEngine : Engine where
  store a v :=
    match a, v with
    | .integer, .text s => (s.toInt?).elim (.text s) .int
    | .text, .int n => .text (toString n)
    | _, v => v
  store_null a := by cases a <;> rfl
  store_int _ := rfl
  store_text _ := rfl
  spareRowid _ := none
  spareRowid_not_mem _ _ h := by cases h

theorem exportable_nil (E : Engine) (d : TableDef) : Exportable E d [] := by
  refine ⟨⟨?_,?_,?_,List.Pairwise.nil,by decide⟩,?_,?_⟩ <;> exact fun r hr => absurd hr List.not_mem_nil

/-- A database whose settings have one row. -/
def oneSetting (value : String) : Db := fun name =>
  if name = "settings" then
    ⟨[⟨1,[("key",.text "siem.mode"),("value",.text value),("updated_at",.text "2026-05-28T03:00:00+00:00")]⟩],0⟩
  else ⟨[],0⟩

theorem exportable_oneSetting : ∀ x ∈ exportedTables, Exportable plainEngine x.2 (oneSetting "on" x.1).rows := by
  have hsettings : Exportable plainEngine settings (oneSetting "on" "settings").rows := by
    refine ⟨⟨by decide,by decide,by decide,by decide,by decide⟩,by decide,fun r hr p hp => ?_⟩
    rw [List.mem_singleton.mp hr] at hp
    simp only [List.mem_cons, List.not_mem_nil, or_false] at hp
    rcases hp with rfl | rfl | rfl <;> trivial
  intro x hx
  simp only [exportedTables, List.mem_cons, List.not_mem_nil, or_false] at hx
  rcases hx with rfl | rfl | rfl | rfl | rfl | rfl | rfl | rfl
  all_goals first
    | exact hsettings
    | exact exportable_nil _ _

/-- A setting that the other database has with another value. -/
theorem bundle_reproduces_example :
    ∃ blob, exportBundle clearPrimitives "correct horse" (List.replicate 16 7) (List.replicate 12 9) "2026-05-28T03:00:00+00:00"
        (oneSetting "on") = some blob ∧
      Restored (oneSetting "on") (oneSetting "off") (importBundle plainEngine true clearPrimitives blob "correct horse" (oneSetting "off")).db := by
  obtain ⟨blob,hexport,⟨-,hrestored⟩,-⟩ := bundle_reproduces clearPrimitives plainEngine clearPrimitives_lawful "correct horse"
    (by decide) (List.replicate 16 7) (List.replicate 12 9) rfl rfl "2026-05-28T03:00:00+00:00" (oneSetting "on") (oneSetting "off")
    exportable_oneSetting
  exact ⟨blob,hexport,hrestored⟩

end Protek.Store.Bundle
