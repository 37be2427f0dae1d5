import Protek.Foundation.PyText
import Protek.Foundation.Clock
import Protek.Foundation.Trace
import Protek.Mirror.Lapi
import Protek.Store.Tables

/-! # What a pull writes

`_bootstrap` and `_stream_apply` as the lists of statements they send. The
connection is in autocommit, so each statement stands on its own and a pull that
fails has executed a prefix of its list.
-/
namespace Protek.Mirror
open Foundation Foundation.PyText Foundation.Clock Protek.Store

inductive Stmt
  | upsertDecision (name : String) (d : LapiDecision) (now : String)
  | tombstoneIdentity (name : String) (k : Identity) (now : String)
  | tombstoneLapiId (name : String) (lapiId : ℤ) (now : String)
  | seeIp (ip name now : String)

/-- The identity under which `_upsert_decision` records a decision. -/
def recordedKey (d : LapiDecision) : Identity := (d.value,orElse (some d.scope) "Ip",d.scenario)

/-- The VALUES of `_upsert_decision`; the table assigns the id. -/
def freshRow (name : String) (d : LapiDecision) (now : String) : DecisionRow where
  id := 0
  originSource := name
  lapiId := d.id
  value := d.value
  scope := orElse (some d.scope) "Ip"
  type := orElse (some d.type) "ban"
  scenario := d.scenario
  origin := d.origin
  duration := d.duration
  untilAt := d.untilAt
  firstSeenAt := now
  lastSeenAt := now
  deletedAt := none

theorem freshRow_key (name : String) (d : LapiDecision) (now : String) :
    (freshRow name d now).key = (name,recordedKey d) := rfl

/-- DO UPDATE of `_upsert_decision`. -/
def refreshRow (d : LapiDecision) (now : String) (r : DecisionRow) : DecisionRow :=
  { r with
    lapiId := d.id
    type := orElse (some d.type) "ban"
    origin := d.origin
    duration := d.duration
    untilAt := d.untilAt
    lastSeenAt := now
    deletedAt := none }

def exec (db : Db) : Stmt → Db
  | .upsertDecision name d now => db.upsertDecision (freshRow name d now) (refreshRow d now) (fun _ => rfl)
  | .tombstoneIdentity name k now => db.tombstone (fun r => r.originSource = name ∧ r.identity = k) now
  | .tombstoneLapiId name i now => db.tombstone (fun r => r.originSource = name ∧ r.lapiId = i ∧ r.active) now
  | .seeIp ip name now =>
    { db with ipSources := db.ipSources.upsert ⟨ip,name,now⟩ (fun r => { r with lastSeenAt := now }) (fun _ => rfl) }

def execAll (db : Db) (stmts : List Stmt) : Db := stmts.foldl exec db

def seeIpStmt (name now : String) (d : LapiDecision) : List Stmt :=
  if strip d.value = "" then [] else [.seeIp (strip d.value) name now]

def upsertStmts (name now : String) (decisions : List LapiDecision) : List Stmt :=
  decisions.map (fun d => .upsertDecision name d now)

/-- The rows of the source that the full pull did not list, as the SELECT after the upserts returns them. -/
def unseenKeys (name : String) (decisions : List LapiDecision) (db : Db) : List Identity :=
  ((db.activeRows.filter (fun r => r.originSource = name)).map DecisionRow.identity).filter
    (fun k => k ∉ decisions.map recordedKey)

def bootstrapStmts (name : String) (decisions : List LapiDecision) (now : String) (db : Db) : List Stmt :=
  upsertStmts name now decisions ++
  (unseenKeys name decisions (execAll db (upsertStmts name now decisions))).map (fun k => .tombstoneIdentity name k now) ++
  decisions.flatMap (seeIpStmt name now)

def streamStmts (name : String) (new deleted : List LapiDecision) (now : String) : List Stmt :=
  new.flatMap (fun d => .upsertDecision name d now :: seeIpStmt name now d) ++
  deleted.map (fun d => .tombstoneLapiId name d.id now)

/-! ## The active rows of one source -/

/-- The LAPI id and the type that the source's active row of an identity holds. -/
def activeView (db : Db) (name : String) (k : Identity) : Option (ℤ × String) :=
  ((db.decisions.find (name,k)).filter DecisionRow.active).map (fun r => (r.lapiId,r.type))

/-- How the mirror table sees a decision. -/
def decisionShape : Shape LapiDecision Identity ℤ (ℤ × String) where
  id := LapiDecision.id
  key := recordedKey
  row d := (d.id,orElse (some d.type) "ban")
  rowId := Prod.fst
  rowId_row _ := rfl

theorem recordedKey_of_inScope {d : LapiDecision} (h : d.inScope = true) : recordedKey d = d.identity := by
  have hne : d.scope ≠ "" := by
    rintro he
    simp [LapiDecision.inScope, he] at h
  rw [recordedKey, orElse_some hne]
  rfl

theorem activeView_eq_some {db : Db} {name : String} {k : Identity} {p : ℤ × String} :
    activeView db name k = some p ↔
      ∃ r ∈ db.activeRows, r.originSource = name ∧ r.identity = k ∧ (r.lapiId,r.type) = p := by
  constructor
  · intro hp
    obtain ⟨r,hr,hrow⟩ := Option.map_eq_some_iff.mp hp
    obtain ⟨hfind,hact⟩ := Option.filter_eq_some_iff.mp hr
    obtain ⟨hmem,hkey⟩ := KeyedTable.find_eq_some.mp hfind
    exact ⟨r,List.mem_filter.mpr ⟨hmem,hact⟩,congrArg Prod.fst hkey,congrArg Prod.snd hkey,hrow⟩
  · rintro ⟨r,hr,rfl,rfl,rfl⟩
    obtain ⟨hmem,hact⟩ := List.mem_filter.mp hr
    have hfind : db.decisions.find (r.originSource,r.identity) = some r := KeyedTable.find_eq_some.mpr ⟨hmem,rfl⟩
    rw [activeView, hfind, Option.filter_some_pos hact]
    rfl

theorem activeView_isSome {db : Db} {name : String} {k : Identity} :
    (activeView db name k).isSome = true ↔ ∃ r ∈ db.activeRows, r.originSource = name ∧ r.identity = k := by
  rw [Option.isSome_iff_exists]
  simp only [activeView_eq_some]
  exact ⟨fun ⟨_,r,hr,hsrc,hk,_⟩ => ⟨r,hr,hsrc,hk⟩,fun ⟨r,hr,hsrc,hk⟩ => ⟨_,r,hr,hsrc,hk,rfl⟩⟩

theorem activeView_upsert (db : Db) (name src : String) (d : LapiDecision) (now : String) :
    activeView (exec db (.upsertDecision src d now)) name =
      if src = name then decisionShape.upsert (activeView db name) d else activeView db name := by
  funext k
  have hfind : (exec db (.upsertDecision src d now)).decisions.find (name,k) = _ :=
    Db.find_upsertDecision db (freshRow src d now) (refreshRow d now) (fun _ => rfl) (name,k)
  rw [freshRow_key] at hfind
  by_cases hs : src = name
  · subst hs
    by_cases hk : k = recordedKey d
    · subst hk
      rw [if_pos rfl, activeView, hfind, if_pos rfl]
      change _ = Function.update (activeView db src) (recordedKey d) (some (d.id,orElse (some d.type) "ban")) (recordedKey d)
      rw [Function.update_self]
      cases db.decisions.find (src,recordedKey d) <;> rfl
    · rw [if_pos rfl, activeView, hfind, if_neg (fun he => hk (congrArg Prod.snd he))]
      exact (Function.update_of_ne (f := activeView db src) hk _).symm
  · rw [if_neg hs, activeView, hfind, if_neg (fun he => hs (congrArg Prod.fst he).symm)]
    rfl

theorem activeView_tombstone (db : Db) (name : String) (p : DecisionRow → Bool) (now : String) (k : Identity) :
    activeView (db.tombstone p now) name k =
      (((db.decisions.find (name,k)).filter DecisionRow.active).filter (fun r => !p r)).map
        (fun r => (r.lapiId,r.type)) := by
  rw [activeView, Db.find_tombstone]
  cases hf : db.decisions.find (name,k) with
  | none => rfl
  | some r =>
    cases hp : p r with
    | false => cases ha : r.active <;> simp [Option.filter_some, hp, ha]
    | true =>
      have hdead : DecisionRow.active { r with deletedAt := some now } = false := rfl
      cases ha : r.active <;> simp [Option.filter_some, hp, ha, hdead]

theorem activeView_tombstoneIdentity (db : Db) (name src : String) (j : Identity) (now : String) (k : Identity) :
    activeView (exec db (.tombstoneIdentity src j now)) name k =
      if src = name ∧ j = k then none else activeView db name k := by
  rw [exec, activeView_tombstone, activeView]
  cases hf : (db.decisions.find (name,k)).filter DecisionRow.active with
  | none => simp
  | some r =>
    obtain ⟨_,hkey⟩ := KeyedTable.find_eq_some.mp (Option.filter_eq_some_iff.mp hf).1
    have hsrc : r.originSource = name := congrArg Prod.fst hkey
    have hid : r.identity = k := congrArg Prod.snd hkey
    by_cases h : src = name ∧ j = k
    · simp [hsrc, hid, h]
    · rw [if_neg h, Option.filter_some_pos]
      simp only [hsrc, hid, Bool.not_eq_eq_eq_not, Bool.not_true, decide_eq_false_iff_not]
      exact fun he => h ⟨he.1.symm,he.2.symm⟩

theorem activeView_tombstoneLapiId (db : Db) (name src : String) (i : ℤ) (now : String) :
    activeView (exec db (.tombstoneLapiId src i now)) name =
      if src = name then decisionShape.retract (activeView db name) i else activeView db name := by
  funext k
  rw [exec, activeView_tombstone]
  by_cases hs : src = name
  · subst hs
    rw [if_pos rfl]
    change _ = (activeView db src k).filter _
    rw [activeView]
    cases hf : (db.decisions.find (src,k)).filter DecisionRow.active with
    | none => rfl
    | some r =>
      obtain ⟨hfind,hact⟩ := Option.filter_eq_some_iff.mp hf
      have hsrc : r.originSource = src := congrArg Prod.fst (KeyedTable.find_eq_some.mp hfind).2
      by_cases hi : r.lapiId = i <;> simp [hsrc, hact, hi, decisionShape, Option.filter_some]
  · rw [if_neg hs, activeView]
    cases hf : (db.decisions.find (name,k)).filter DecisionRow.active with
    | none => rfl
    | some r =>
      have hsrc : r.originSource = name :=
        congrArg Prod.fst (KeyedTable.find_eq_some.mp (Option.filter_eq_some_iff.mp hf).1).2
      have hne : ¬ name = src := fun he => hs he.symm
      rw [Option.filter_some_pos]
      simp [hsrc, hne]

theorem execAll_cons (db : Db) (st : Stmt) (stmts : List Stmt) : execAll db (st :: stmts) = execAll (exec db st) stmts := rfl

theorem execAll_append (db : Db) (xs ys : List Stmt) : execAll db (xs ++ ys) = execAll (execAll db xs) ys := by
  simp [execAll, List.foldl_append]

/-- A property that each statement of a list keeps is kept by the list. -/
theorem execAll_invariant {I : Db → Prop} {stmts : List Stmt} {db : Db} (h : I db)
    (hkeep : ∀ st ∈ stmts, ∀ db, I db → I (exec db st)) : I (execAll db stmts) :=
  List.foldlRecOn stmts exec h (fun db hdb st hst => hkeep st hst db hdb)

/-- What no statement of a list writes is left alone by the list. -/
theorem execAll_keeps {β : Type*} (f : Db → β) {stmts : List Stmt} (h : ∀ st ∈ stmts, ∀ db, f (exec db st) = f db)
    (db : Db) : f (execAll db stmts) = f db :=
  foldl_keeps f (fun db st hst => h st hst db)

/-- A source's rows are written by its own pulls only. -/
def Stmt.source : Stmt → String
  | .upsertDecision name _ _ => name
  | .tombstoneIdentity name _ _ => name
  | .tombstoneLapiId name _ _ => name
  | .seeIp _ name _ => name

theorem find_exec_of_ne {db : Db} {name : String} {st : Stmt} (h : st.source ≠ name) (k : Identity) :
    (exec db st).decisions.find (name,k) = db.decisions.find (name,k) := by
  have hrow : ∀ r, db.decisions.find (name,k) = some r → r.originSource ≠ st.source := by
    intro r hr hsrc
    exact h (hsrc.symm.trans (congrArg Prod.fst (KeyedTable.find_eq_some.mp hr).2))
  cases st with
  | upsertDecision src d now =>
    have hfind : (exec db (.upsertDecision src d now)).decisions.find (name,k) = _ :=
      Db.find_upsertDecision db (freshRow src d now) (refreshRow d now) (fun _ => rfl) (name,k)
    rw [hfind]
    exact if_neg (fun he => h (congrArg Prod.fst he).symm)
  | tombstoneIdentity src j now =>
    rw [exec, Db.find_tombstone]
    cases hf : db.decisions.find (name,k) with
    | none => rfl
    | some r => simp [show r.originSource ≠ src from hrow r hf]
  | tombstoneLapiId src i now =>
    rw [exec, Db.find_tombstone]
    cases hf : db.decisions.find (name,k) with
    | none => rfl
    | some r => simp [show r.originSource ≠ src from hrow r hf]
  | seeIp ip src now => rfl

theorem find_execAll_of_ne {db : Db} {name : String} {stmts : List Stmt} (h : ∀ st ∈ stmts, st.source ≠ name)
    (k : Identity) : (execAll db stmts).decisions.find (name,k) = db.decisions.find (name,k) :=
  execAll_keeps (fun db => db.decisions.find (name,k)) (fun st hst _ => find_exec_of_ne (h st hst) k) db

theorem source_bootstrapStmts {db : Db} {name now : String} {decisions : List LapiDecision} :
    ∀ st ∈ bootstrapStmts name decisions now db, st.source = name := by
  intro st hst
  simp only [bootstrapStmts, upsertStmts, List.mem_append, List.mem_map, List.mem_flatMap, seeIpStmt] at hst
  rcases hst with (⟨d,_,rfl⟩ | ⟨k,_,rfl⟩) | ⟨d,_,hst⟩
  · rfl
  · rfl
  · split at hst
    · cases hst
    · rw [List.mem_singleton.mp hst]
      rfl

theorem source_streamStmts {name now : String} {new deleted : List LapiDecision} :
    ∀ st ∈ streamStmts name new deleted now, st.source = name := by
  intro st hst
  simp only [streamStmts, List.mem_append, List.mem_map, List.mem_flatMap, List.mem_cons, seeIpStmt] at hst
  rcases hst with ⟨d,_,rfl | hst⟩ | ⟨d,_,rfl⟩
  · rfl
  · split at hst
    · cases hst
    · rw [List.mem_singleton.mp hst]
      rfl
  · rfl

/-! ## A pull seen through the view -/

theorem activeView_seeIps (db : Db) (name src now : String) (decisions : List LapiDecision) :
    activeView (execAll db (decisions.flatMap (seeIpStmt src now))) name = activeView db name := by
  refine execAll_keeps (fun db => activeView db name) (fun st hst db => ?_) db
  obtain ⟨d,_,hst⟩ := List.mem_flatMap.mp hst
  unfold seeIpStmt at hst
  split at hst
  · cases hst
  · rw [List.mem_singleton.mp hst]
    rfl

theorem activeView_upserts (db : Db) (name now : String) (decisions : List LapiDecision) :
    activeView (execAll db (upsertStmts name now decisions)) name =
      decisions.foldl decisionShape.upsert (activeView db name) := by
  induction decisions generalizing db with
  | nil => rfl
  | cons d rest ih =>
    rw [upsertStmts, List.map_cons, execAll_cons, ← upsertStmts, ih, activeView_upsert, if_pos rfl, List.foldl_cons]

theorem activeView_tombstones (db : Db) (name now : String) (keys : List Identity) (k : Identity) :
    activeView (execAll db (keys.map (fun j => .tombstoneIdentity name j now))) name k =
      if k ∈ keys then none else activeView db name k := by
  induction keys generalizing db with
  | nil => rfl
  | cons j rest ih =>
    rw [List.map_cons, execAll_cons, ih, activeView_tombstoneIdentity]
    by_cases hj : j = k
    · simp [hj]
    · have hk : ¬ k = j := fun he => hj he.symm
      simp [hj, hk]

/-- A full pull replaces the source's view by what LAPI listed. -/
theorem activeView_bootstrap (db : Db) (name now : String) (decisions : List LapiDecision) :
    activeView (execAll db (bootstrapStmts name decisions now db)) name = decisionShape.load decisions := by
  rw [bootstrapStmts, execAll_append, execAll_append, activeView_seeIps]
  funext k
  rw [activeView_tombstones, activeView_upserts, Shape.load, Shape.foldl_upsert, Shape.foldl_upsert]
  cases hl : OrderedDict.lastWith decisionShape.key k decisions with
  | some d =>
    obtain ⟨hd,hkey⟩ := OrderedDict.lastWith_some hl
    have hseen : k ∈ decisions.map recordedKey := List.mem_map.mpr ⟨d,hd,hkey⟩
    have hnot : k ∉ unseenKeys name decisions (execAll db (upsertStmts name now decisions)) :=
      fun hm => (by simpa using (List.mem_filter.mp hm).2 : k ∉ decisions.map recordedKey) hseen
    rw [if_neg hnot]
  | none =>
    have hseen : k ∉ decisions.map recordedKey := by
      intro hm
      obtain ⟨d,hd,hkey⟩ := List.mem_map.mp hm
      have hsome : (OrderedDict.lastWith decisionShape.key k decisions).isSome :=
        OrderedDict.lastWith_isSome.mpr ⟨d,hd,hkey⟩
      rw [hl] at hsome
      cases hsome
    split
    · rfl
    · next hk =>
      -- an active row of an unlisted identity would be among the tombstoned ones
      by_contra hne
      have hsome : (activeView (execAll db (upsertStmts name now decisions)) name k).isSome = true := by
        rw [activeView_upserts, Shape.foldl_upsert, hl]
        exact Option.isSome_iff_ne_none.mpr hne
      obtain ⟨r,hr,hsrc,hid⟩ := activeView_isSome.mp hsome
      apply hk
      refine List.mem_filter.mpr ⟨List.mem_map.mpr ⟨r,List.mem_filter.mpr ⟨hr,by simp [hsrc]⟩,hid⟩,?_⟩
      simpa using hseen

theorem activeView_recorded (db : Db) (name now : String) (new : List LapiDecision) :
    activeView (execAll db (new.flatMap (fun d => .upsertDecision name d now :: seeIpStmt name now d))) name =
      new.foldl decisionShape.upsert (activeView db name) := by
  induction new generalizing db with
  | nil => rfl
  | cons d rest ih =>
    have hsee : ∀ db : Db, activeView (execAll db (seeIpStmt name now d)) name = activeView db name := by
      intro db
      unfold seeIpStmt
      split <;> rfl
    rw [List.flatMap_cons, List.cons_append, execAll_cons, execAll_append, ih, hsee, activeView_upsert, if_pos rfl,
      List.foldl_cons]

theorem activeView_retracted (db : Db) (name now : String) (deleted : List LapiDecision) :
    activeView (execAll db (deleted.map (fun d => .tombstoneLapiId name d.id now))) name =
      (deleted.map decisionShape.id).foldl decisionShape.retract (activeView db name) := by
  induction deleted generalizing db with
  | nil => rfl
  | cons d rest ih =>
    rw [List.map_cons, execAll_cons, ih, activeView_tombstoneLapiId, if_pos rfl, List.map_cons, List.foldl_cons]
    rfl

/-- An incremental pull replays the delta on the source's view. -/
theorem activeView_stream (db : Db) (name now : String) (new deleted : List LapiDecision) :
    activeView (execAll db (streamStmts name new deleted now)) name =
      decisionShape.replay (activeView db name) new deleted := by
  rw [streamStmts, execAll_append, activeView_retracted, activeView_recorded]
  rfl

end Protek.Mirror
