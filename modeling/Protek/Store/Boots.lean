import Protek.Foundation.Trace
import Protek.Store.Schema
import Protek.Targets.Triggers

/-! # The start of the workers

Each worker process runs `init_db` behind a file lock that it waits for, and asks for the poller's lock without waiting.
A process may die at any point, and the locks that it holds go with it.
-/
namespace Protek.Store.Schema
open Foundation
open Foundation.SqlTable (SqlValue cellOf)

/-- `initialising` keeps whether this was an upgrade, the columns that a PRAGMA has just read, and the statements done. -/
inductive Phase
  | absent
  | waiting
  | initialising (upgrading : Bool) (existing : Option (List String)) (done : ℕ)
  | initialised
  | ready (polls : Bool)
  deriving DecidableEq

structure World where
  db : Database
  phase : ℕ → Phase
  initLock : Option ℕ
  pollerLock : Option ℕ

/-- The next step of `_init_db_locked` at this statement, `none` where it raises. -/
def initStep (db : Database) (now : String) (upgrading : Bool) (existing : Option (List String)) (done : ℕ) (s : Statement) :
    Option (Database × Phase) :=
  let executed := (db.exec upgrading now s).map (fun db' => (db',.initialising upgrading none (done + 1)))
  match s, existing with
  | .addColumn table _ _, none => some (db,.initialising upgrading (some (db.tableInfo table)) done)
  | .addColumn _ column _, some columns => if column ∈ columns then some (db,.initialising upgrading none (done + 1)) else executed
  | _, _ => executed

/-- `get_setting` -/
def Database.text (db : Database) (key : String) : Option String :=
  match (db.setting key).map (fun r => cellOf r "value") with
  | some (.text s) => some s
  | _ => none

/-- What processes that are through with their start do: rows of the tables, and tables of other names. -/
structure Elsewhere (db db' : Database) : Prop where
  keeps : Keeps db db'
  columns : ∀ name columns t', .createTable name columns ∈ STATEMENTS → db'.tables name = some t' →
    ∃ t, db.tables name = some t ∧ t'.columns = t.columns
  unset : db.setting "ui.advanced_default" = none → db'.setting "ui.advanced_default" = none

namespace World
variable (w : World)

def enter (pid : ℕ) (p : Phase) : World := { w with phase := Function.update w.phase pid p }

/-- The lock, and the look for a table of users. -/
def lock (pid : ℕ) : World :=
  { w.enter pid (.initialising (w.db.tables "users").isSome none 0) with initLock := some pid }

/-- `_try_acquire_poller_lock` behind the role; `opens` is false where the file cannot be opened. -/
def elect (E : Targets.Env) (pid : ℕ) (opens : Bool) : World :=
  if E.role w.db.text = .primary ∧ opens ∧ w.pollerLock = none then
    { w.enter pid (.ready true) with pollerLock := some pid }
  else w.enter pid (.ready false)

/-- A process ends, and its files are closed. -/
def gone (pid : ℕ) : World :=
  { w.enter pid .absent with
    initLock := if w.initLock = some pid then none else w.initLock
    pollerLock := if w.pollerLock = some pid then none else w.pollerLock }

end World

inductive Event
  | start (pid : ℕ)
  | lock (pid : ℕ)
  | init (pid : ℕ) (now : String)
  | raise (pid : ℕ) (now : String)
  | finish (pid : ℕ)
  | elect (pid : ℕ) (opens : Bool)
  | die (pid : ℕ)
  | elsewhere

inductive Step (E : Targets.Env) : World → Event → World → Prop
  | start {w : World} {pid : ℕ} (h : w.phase pid = .absent) : Step E w (.start pid) (w.enter pid .waiting)
  | lock {w : World} {pid : ℕ} (h : w.phase pid = .waiting) (hfree : w.initLock = none) : Step E w (.lock pid) (w.lock pid)
  | init {w : World} {pid done : ℕ} {now : String} {upgrading : Bool} {existing : Option (List String)} {s : Statement}
      {db' : Database} {p : Phase} (h : w.phase pid = .initialising upgrading existing done) (hs : STATEMENTS[done]? = some s)
      (hstep : initStep w.db now upgrading existing done s = some (db',p)) :
      Step E w (.init pid now) { w.enter pid p with db := db' }
  | raise {w : World} {pid done : ℕ} {now : String} {upgrading : Bool} {existing : Option (List String)} {s : Statement}
      (h : w.phase pid = .initialising upgrading existing done) (hs : STATEMENTS[done]? = some s)
      (hstep : initStep w.db now upgrading existing done s = none) : Step E w (.raise pid now) (w.gone pid)
  | finish {w : World} {pid : ℕ} {upgrading : Bool} (h : w.phase pid = .initialising upgrading none STATEMENTS.length) :
      Step E w (.finish pid) { w.enter pid .initialised with initLock := none }
  | elect {w : World} {pid : ℕ} {opens : Bool} (h : w.phase pid = .initialised) : Step E w (.elect pid opens) (w.elect E pid opens)
  | die {w : World} {pid : ℕ} : Step E w (.die pid) (w.gone pid)
  | elsewhere {w : World} {db' : Database} (h : Elsewhere w.db db') : Step E w .elsewhere { w with db := db' }

abbrev Move := Transition World Event

/-- No process, on a database of any age. -/
structure Cold (w : World) : Prop where
  phase : ∀ pid, w.phase pid = .absent
  initLock : w.initLock = none
  pollerLock : w.pollerLock = none
  grown : Grown w.db

/-! ## The invariant -/

/-- How far a worker is. What a PRAGMA has read is still so. -/
structure Progress (db : Database) (existing : Option (List String)) (done : ℕ) : Prop where
  holds : ∀ s ∈ STATEMENTS.take done, Holds db s
  bound : done ≤ STATEMENTS.length
  read : ∀ columns, existing = some columns → ∃ table column definition,
    STATEMENTS[done]? = some (.addColumn table column definition) ∧ columns = db.tableInfo table

structure Inv (w : World) : Prop where
  grown : Grown w.db
  lock : ∀ pid, w.initLock = some pid ↔ ∃ upgrading existing done, w.phase pid = .initialising upgrading existing done
  progress : ∀ pid upgrading existing done, w.phase pid = .initialising upgrading existing done → Progress w.db existing done
  complete : ∀ pid, (w.phase pid = .initialised ∨ ∃ polls, w.phase pid = .ready polls) → Complete w.db
  poller : ∀ pid, w.pollerLock = some pid ↔ w.phase pid = .ready true

section
variable {E : Targets.Env} {w v : World} {pid : ℕ}

theorem Complete.keeps {db db' : Database} (h : Complete db) (hk : Keeps db db') : Complete db' := by
  refine ⟨fun name columns hs => ?_,fun name table columns hs => hk.indexes name (h.indexes name table columns hs),
    fun name table hs => hk.triggers name (h.triggers name table hs),?_⟩
  · obtain ⟨t,ht,hcols⟩ := h.tables name columns hs
    obtain ⟨t',ht',hsub⟩ := hk.tables name t ht
    exact ⟨t',ht',fun c hc => hsub c (hcols c hc)⟩
  · obtain ⟨r,hr⟩ := Option.isSome_iff_exists.mp h.setting
    obtain ⟨r',hr',-⟩ := hk.setting _ r hr
    exact Option.isSome_iff_exists.mpr ⟨r',hr'⟩

theorem Grown.done {db db' : Database} {s : Statement} (hg : Grown db) (hs : s ∈ STATEMENTS) (hd : Done db s db') : Grown db' := by
  intro name columns hname t' ht' c hc hlater
  cases ht : db.tables name with
  | some t =>
    obtain ⟨t'',ht'',hsub⟩ := hd.keeps.tables name t ht
    rw [ht'] at ht''
    exact Option.some_inj.mp ht'' ▸ hsub c (hg name columns hname t ht c hc hlater)
  | none =>
    obtain ⟨columns',rfl,hcols⟩ := hd.created name t' ht' ht
    have hsame : columns' = columns := createTable_unique hs hname
    rw [hcols, hsame]
    exact hc

theorem Grown.elsewhere {db db' : Database} (hg : Grown db) (he : Elsewhere db db') : Grown db' := by
  intro name columns hname t' ht' c hc hlater
  obtain ⟨t,ht,hcols⟩ := he.columns name columns t' hname ht'
  rw [hcols]
  exact hg name columns hname t ht c hc hlater

/-- The table of a column that is to be added is there. -/
theorem Progress.table {db : Database} {existing : Option (List String)} {done : ℕ} {table column definition : String}
    (h : Progress db existing done) (hs : STATEMENTS[done]? = some (.addColumn table column definition)) :
    ∃ columns t, .createTable table columns ∈ STATEMENTS ∧ db.tables table = some t := by
  obtain ⟨hk,hget⟩ := List.getElem?_eq_some_iff.mp hs
  have hready := ready_take done hk
  rw [hget] at hready
  obtain ⟨-,hany⟩ := of_decide_eq_true hready
  obtain ⟨s,hmem,his⟩ := List.any_eq_true.mp hany
  cases s with
  | createTable n cs =>
    obtain ⟨rfl,-⟩ := of_decide_eq_true his
    obtain ⟨t,ht,-⟩ := h.holds _ hmem
    exact ⟨cs,t,List.mem_of_mem_take hmem,ht⟩
  | createIndex => cases his
  | addColumn => cases his
  | insertSetting => cases his
  | createTrigger => cases his

theorem Progress.elsewhere {db db' : Database} {existing : Option (List String)} {done : ℕ} (h : Progress db existing done)
    (he : Elsewhere db db') : Progress db' existing done := by
  refine ⟨fun s hs => (h.holds s hs).keeps he.keeps,h.bound,fun columns hcols => ?_⟩
  obtain ⟨table,column,definition,hs,rfl⟩ := h.read columns hcols
  refine ⟨table,column,definition,hs,?_⟩
  obtain ⟨cs,t,hcreate,ht⟩ := h.table hs
  obtain ⟨t',ht',-⟩ := he.keeps.tables table t ht
  obtain ⟨t₀,ht₀,hsame⟩ := he.columns table cs t' hcreate ht'
  rw [ht] at ht₀
  obtain rfl := Option.some_inj.mp ht₀
  unfold Database.tableInfo
  rw [ht, ht', Option.map_some, Option.map_some, hsame]

/-- What a step of a worker does: it reads, finds its statement done, or executes it. -/
inductive Stepped (db : Database) (now : String) (upgrading : Bool) (existing : Option (List String)) (done : ℕ) (s : Statement) :
    Database → Phase → Prop
  | read {table column definition : String} (hs : s = .addColumn table column definition) (he : existing = none) :
      Stepped db now upgrading existing done s db (.initialising upgrading (some (db.tableInfo table)) done)
  | skipped (h : Holds db s) : Stepped db now upgrading existing done s db (.initialising upgrading none (done + 1))
  | executed {db' : Database} (h : Done db s db')
      (hvalue : ∀ key, s = .insertSetting key → db.setting key = none →
        db'.setting key = some (Database.settingRow key (if upgrading then "1" else "0") now)) :
      Stepped db now upgrading existing done s db' (.initialising upgrading none (done + 1))

/-- No step of a worker raises. -/
theorem initStep_stepped {db : Database} {now : String} {upgrading : Bool} {existing : Option (List String)} {done : ℕ} {s : Statement}
    (hg : Grown db) (hp : Progress db existing done) (hs : STATEMENTS[done]? = some s) :
    ∃ db' p, initStep db now upgrading existing done s = some (db',p) ∧ Stepped db now upgrading existing done s db' p := by
  have hexec : (∀ table column definition, s = .addColumn table column definition → column ∉ db.tableInfo table) →
      ∃ db' p, (db.exec upgrading now s).map (fun db' => (db',Phase.initialising upgrading none (done + 1))) = some (db',p) ∧
        Stepped db now upgrading existing done s db' p := by
    intro hcol
    obtain ⟨db',hexec,hdone,hvalue⟩ := exec_done hs hg hp.holds hcol upgrading now
    exact ⟨db',_,by rw [hexec]; rfl,.executed hdone hvalue⟩
  cases s with
  | createTable name columns => exact hexec nofun
  | createIndex name table columns => exact hexec nofun
  | insertSetting key => exact hexec nofun
  | createTrigger name table => exact hexec nofun
  | addColumn table column definition =>
    cases existing with
    | none => exact ⟨_,_,rfl,.read rfl rfl⟩
    | some columns =>
      obtain ⟨table',column',definition',hs',rfl⟩ := hp.read columns rfl
      rw [hs] at hs'
      obtain ⟨rfl,rfl,rfl⟩ := Statement.addColumn.inj (Option.some_inj.mp hs')
      by_cases hcol : column ∈ db.tableInfo table
      · refine ⟨db,_,if_pos hcol,.skipped ?_⟩
        obtain ⟨cs,t,-,ht⟩ := hp.table hs
        unfold Database.tableInfo at hcol
        rw [ht] at hcol
        exact ⟨t,ht,hcol⟩
      · obtain ⟨db',p,hmap,hstep⟩ := hexec (fun table' column' definition' h => by
          obtain ⟨rfl,rfl,rfl⟩ := Statement.addColumn.inj h
          exact hcol)
        exact ⟨db',p,(if_neg hcol).trans hmap,hstep⟩

theorem Stepped.grown {db db' : Database} {now : String} {upgrading : Bool} {existing : Option (List String)} {done : ℕ} {s : Statement}
    {p : Phase} (hg : Grown db)
    (hs : STATEMENTS[done]? = some s) (h : Stepped db now upgrading existing done s db' p) : Grown db' := by
  cases h with
  | read => exact hg
  | skipped => exact hg
  | executed hd => exact hg.done (List.mem_of_getElem? hs) hd

theorem Stepped.keeps {db db' : Database} {now : String} {upgrading : Bool} {existing : Option (List String)} {done : ℕ} {s : Statement}
    {p : Phase}
    (h : Stepped db now upgrading existing done s db' p) : Keeps db db' ∧ KeepsRows db db' := by
  cases h with
  | read => exact ⟨.refl _,.refl _⟩
  | skipped => exact ⟨.refl _,.refl _⟩
  | executed hd => exact ⟨hd.keeps,hd.rows⟩

theorem Stepped.progress {db db' : Database} {now : String} {upgrading : Bool} {existing : Option (List String)} {done : ℕ} {s : Statement}
    {p : Phase} (hp : Progress db existing done) (hs : STATEMENTS[done]? = some s) (h : Stepped db now upgrading existing done s db' p) :
    ∃ existing' done', p = .initialising upgrading existing' done' ∧ Progress db' existing' done' := by
  obtain ⟨hk,hget⟩ := List.getElem?_eq_some_iff.mp hs
  have htake : STATEMENTS.take (done + 1) = STATEMENTS.take done ++ [s] := by rw [List.take_succ_eq_append_getElem hk, hget]
  have hnext : ∀ {db'}, Keeps db db' → Holds db' s → Progress db' none (done + 1) := by
    intro db' hkeeps hholds
    refine ⟨fun s' hs' => ?_,hk,nofun⟩
    rcases List.mem_append.mp (htake ▸ hs') with hs' | hs'
    · exact (hp.holds s' hs').keeps hkeeps
    · rw [List.mem_singleton.mp hs']
      exact hholds
  cases h with
  | @read table column definition h _ =>
    refine ⟨_,_,rfl,hp.holds,hp.bound,fun columns hcols => ?_⟩
    exact ⟨table,column,definition,h ▸ hs,(Option.some_inj.mp hcols).symm⟩
  | skipped hholds => exact ⟨_,_,rfl,hnext (.refl _) hholds⟩
  | executed hd _ => exact ⟨_,_,rfl,hnext hd.keeps hd.holds⟩

theorem enter_phase (w : World) (pid pid' : ℕ) (p : Phase) : (w.enter pid p).phase pid' = if pid' = pid then p else w.phase pid' :=
  Function.update_apply _ _ _ _

/-- A worker comes to a phase without a lock from one without. -/
theorem Inv.enter (hi : Inv w) {p : Phase} (hlock : ∀ u e d, w.phase pid ≠ .initialising u e d) (hpoll : w.phase pid ≠ .ready true)
    (hlock' : ∀ u e d, p ≠ .initialising u e d) (hpoll' : p ≠ .ready true)
    (hcomplete : (p = .initialised ∨ ∃ polls, p = .ready polls) → Complete w.db) : Inv (w.enter pid p) := by
  refine ⟨hi.grown,fun q => ?_,fun q u e d hq => ?_,fun q hq => ?_,fun q => ?_⟩
  · rw [enter_phase]
    by_cases hpq : q = pid
    · subst hpq
      rw [if_pos rfl]
      refine ⟨fun h => ?_,fun ⟨u,e,d,h⟩ => absurd h (hlock' u e d)⟩
      obtain ⟨u,e,d,h⟩ := (hi.lock q).mp h
      exact absurd h (hlock u e d)
    · rw [if_neg hpq]
      exact hi.lock q
  · rw [enter_phase] at hq
    split at hq
    · exact absurd hq (hlock' u e d)
    · exact hi.progress q u e d hq
  · rw [enter_phase] at hq
    split at hq
    · exact hcomplete hq
    · exact hi.complete q hq
  · rw [enter_phase]
    by_cases hpq : q = pid
    · subst hpq
      rw [if_pos rfl]
      exact ⟨fun h => absurd ((hi.poller q).mp h) hpoll,fun h => absurd h hpoll'⟩
    · rw [if_neg hpq]
      exact hi.poller q

theorem gone_phase (w : World) (pid pid' : ℕ) : (w.gone pid).phase pid' = if pid' = pid then .absent else w.phase pid' :=
  Function.update_apply _ _ _ _

theorem gone_lock (l : Option ℕ) (pid q : ℕ) : (if l = some pid then none else l) = some q ↔ l = some q ∧ q ≠ pid := by
  split
  · next h =>
    rw [h]
    exact ⟨nofun,fun ⟨hq,hne⟩ => absurd (Option.some_inj.mp hq).symm hne⟩
  · next h => exact ⟨fun hq => ⟨hq,fun hpq => h (hpq ▸ hq)⟩,fun hq => hq.1⟩

theorem Inv.gone (hi : Inv w) (pid : ℕ) : Inv (w.gone pid) := by
  refine ⟨hi.grown,fun q => ?_,fun q u e d hq => ?_,fun q hq => ?_,fun q => ?_⟩
  · rw [gone_phase]
    refine (gone_lock _ _ _).trans ?_
    by_cases hpq : q = pid
    · subst hpq
      simp
    · rw [if_neg hpq, hi.lock q]
      exact ⟨fun h => h.1,fun h => ⟨h,hpq⟩⟩
  · rw [gone_phase] at hq
    split at hq
    · cases hq
    · exact hi.progress q u e d hq
  · rw [gone_phase] at hq
    split at hq
    · simp at hq
    · exact hi.complete q hq
  · rw [gone_phase]
    refine (gone_lock _ _ _).trans ?_
    by_cases hpq : q = pid
    · subst hpq
      simp
    · rw [if_neg hpq, hi.poller q]
      exact ⟨fun h => h.1,fun h => ⟨h,hpq⟩⟩

theorem Inv.lock_step (hi : Inv w) (h : w.phase pid = .waiting) (hfree : w.initLock = none) : Inv (w.lock pid) := by
  refine ⟨hi.grown,fun q => ?_,fun q u e d hq => ?_,fun q hq => ?_,fun q => ?_⟩
  · change some pid = some q ↔ ∃ u e d, (w.enter pid _).phase q = .initialising u e d
    rw [enter_phase]
    by_cases hpq : q = pid
    · subst hpq
      rw [if_pos rfl]
      exact ⟨fun _ => ⟨_,_,_,rfl⟩,fun _ => rfl⟩
    · rw [if_neg hpq, ← hi.lock q, hfree]
      exact ⟨fun h => absurd (Option.some_inj.mp h).symm hpq,nofun⟩
  · rw [show (w.lock pid).phase q = _ from enter_phase _ _ _ _] at hq
    split at hq
    · obtain ⟨-,rfl,rfl⟩ := Phase.initialising.inj hq
      exact ⟨by simp,Nat.zero_le _,nofun⟩
    · exact hi.progress q u e d hq
  · rw [show (w.lock pid).phase q = _ from enter_phase _ _ _ _] at hq
    split at hq
    · simp at hq
    · exact hi.complete q hq
  · rw [show (w.lock pid).phase q = _ from enter_phase _ _ _ _]
    by_cases hpq : q = pid
    · subst hpq
      rw [if_pos rfl]
      refine ⟨fun hq => ?_,nofun⟩
      rw [(hi.poller q).mp hq] at h
      cases h
    · rw [if_neg hpq]
      exact hi.poller q

theorem Inv.init_step (hi : Inv w) {upgrading : Bool} {existing : Option (List String)} {done : ℕ} {now : String} {s : Statement}
    {db' : Database} {p : Phase} (h : w.phase pid = .initialising upgrading existing done) (hs : STATEMENTS[done]? = some s)
    (hstep : Stepped w.db now upgrading existing done s db' p) : Inv { w.enter pid p with db := db' } := by
  obtain ⟨existing',done',rfl,hprogress⟩ := hstep.progress (hi.progress pid _ _ _ h) hs
  have hmine := (hi.lock pid).mpr ⟨_,_,_,h⟩
  refine ⟨hstep.grown hi.grown hs,fun q => ?_,fun q u e d hq => ?_,fun q hq => ?_,fun q => ?_⟩
  · change w.initLock = some q ↔ ∃ u e d, (w.enter pid _).phase q = .initialising u e d
    rw [enter_phase]
    by_cases hpq : q = pid
    · subst hpq
      rw [if_pos rfl]
      exact ⟨fun _ => ⟨_,_,_,rfl⟩,fun _ => hmine⟩
    · rw [if_neg hpq]
      exact hi.lock q
  · rw [show World.phase _ q = _ from enter_phase w pid q _] at hq
    split at hq
    · obtain ⟨-,rfl,rfl⟩ := Phase.initialising.inj hq
      exact hprogress
    · next hne =>
      -- the lock is this worker's
      have hother := (hi.lock q).mpr ⟨_,_,_,hq⟩
      exact absurd (Option.some_inj.mp (hother.symm.trans hmine)) hne
  · rw [show World.phase _ q = _ from enter_phase w pid q _] at hq
    split at hq
    · simp at hq
    · exact (hi.complete q hq).keeps hstep.keeps.1
  · rw [show World.phase _ q = _ from enter_phase w pid q _]
    by_cases hpq : q = pid
    · subst hpq
      rw [if_pos rfl]
      refine ⟨fun hq => ?_,nofun⟩
      have hboth := h.symm.trans ((hi.poller q).mp hq)
      cases hboth
    · rw [if_neg hpq]
      exact hi.poller q

theorem Inv.finish_step (hi : Inv w) {upgrading : Bool} (h : w.phase pid = .initialising upgrading none STATEMENTS.length) :
    Inv { w.enter pid .initialised with initLock := none } := by
  have hmine := (hi.lock pid).mpr ⟨_,_,_,h⟩
  have hcomplete : Complete w.db := complete_of_holds (fun s hs => (hi.progress pid _ _ _ h).holds s (by rwa [List.take_length]))
  refine ⟨hi.grown,fun q => ?_,fun q u e d hq => ?_,fun q hq => hcomplete,fun q => ?_⟩
  · refine ⟨nofun,fun ⟨u,e,d,hq⟩ => ?_⟩
    rw [show World.phase _ q = _ from enter_phase w pid q _] at hq
    split at hq
    · cases hq
    · next hne =>
      have hother := (hi.lock q).mpr ⟨_,_,_,hq⟩
      exact absurd (Option.some_inj.mp (hother.symm.trans hmine)) hne
  · rw [show World.phase _ q = _ from enter_phase w pid q _] at hq
    split at hq
    · cases hq
    · exact hi.progress q u e d hq
  · rw [show World.phase _ q = _ from enter_phase w pid q _]
    by_cases hpq : q = pid
    · subst hpq
      rw [if_pos rfl]
      refine ⟨fun hq => ?_,nofun⟩
      have hboth := h.symm.trans ((hi.poller q).mp hq)
      cases hboth
    · rw [if_neg hpq]
      exact hi.poller q

theorem Inv.elect_step (hi : Inv w) (h : w.phase pid = .initialised) (opens : Bool) : Inv (w.elect E pid opens) := by
  have hcomplete := hi.complete pid (Or.inl h)
  unfold World.elect
  split
  · next hcond =>
    obtain ⟨-,-,hfree⟩ := hcond
    refine ⟨hi.grown,fun q => ?_,fun q u e d hq => ?_,fun q _ => hcomplete,fun q => ?_⟩
    · change w.initLock = some q ↔ ∃ u e d, (w.enter pid _).phase q = .initialising u e d
      rw [enter_phase]
      by_cases hpq : q = pid
      · subst hpq
        rw [if_pos rfl, hi.lock q, h]
        simp
      · rw [if_neg hpq]
        exact hi.lock q
    · rw [show World.phase _ q = _ from enter_phase w pid q _] at hq
      split at hq
      · cases hq
      · exact hi.progress q u e d hq
    · change some pid = some q ↔ (w.enter pid _).phase q = .ready true
      rw [enter_phase]
      by_cases hpq : q = pid
      · subst hpq
        simp
      · rw [if_neg hpq, ← hi.poller q, hfree]
        exact ⟨fun h => absurd (Option.some_inj.mp h).symm hpq,nofun⟩
  · exact hi.enter (by simp [h]) (by simp [h]) (by simp) (by simp) (fun _ => hcomplete)

theorem Inv.elsewhere_step (hi : Inv w) {db' : Database} (he : Elsewhere w.db db') : Inv { w with db := db' } :=
  ⟨hi.grown.elsewhere he,hi.lock,fun q u e d hq => (hi.progress q u e d hq).elsewhere he,fun q hq => (hi.complete q hq).keeps he.keeps,hi.poller⟩

theorem Inv.step {a : Event} (hi : Inv w) (hs : Step E w a v) : Inv v := by
  cases hs with
  | start h => exact hi.enter (by simp [h]) (by simp [h]) (by simp) (by simp) (by simp)
  | lock h hfree => exact hi.lock_step h hfree
  | init h hs hstep =>
    obtain ⟨db'',p',hstep',hstepped⟩ := @initStep_stepped _ _ _ _ _ _ hi.grown (hi.progress _ _ _ _ h) hs
    rw [hstep] at hstep'
    obtain ⟨rfl,rfl⟩ := Prod.mk.inj (Option.some_inj.mp hstep')
    exact hi.init_step h hs hstepped
  | raise => exact hi.gone _
  | finish h => exact hi.finish_step h
  | elect h => exact hi.elect_step h _
  | die => exact hi.gone _
  | elsewhere he => exact hi.elsewhere_step he

theorem Cold.inv (h : Cold w) : Inv w := by
  refine ⟨h.grown,fun pid => ?_,fun pid u e d hp => ?_,fun pid hp => ?_,fun pid => ?_⟩
  · rw [h.initLock, h.phase pid]
    simp
  · rw [h.phase pid] at hp
    cases hp
  · rw [h.phase pid] at hp
    simp at hp
  · rw [h.pollerLock, h.phase pid]
    simp

theorem inv_of_trace {init : World} {ts : List Move} (h : Trace (Step E) init ts w) (hcold : Cold init) :
    Inv w ∧ ∀ t ∈ ts, Inv t.before ∧ Inv t.after :=
  h.always hcold.inv (fun _ hs hi => hi.step hs)

end

/-- No user has ever been, and no setting either. -/
structure Fresh (w : World) : Prop extends Cold w where
  users : w.db.tables "users" = none
  unset : w.db.setting "ui.advanced_default" = none

/-- A start dies between its table of users and its setting. -/
def CutShort (t : Move) : Prop :=
  ∃ pid, t.label = .die pid ∧ (∃ u e d, t.before.phase pid = .initialising u e d) ∧ (t.before.db.tables "users").isSome = true ∧
    t.before.db.setting "ui.advanced_default" = none

/-- What the setting says, or is going to say, of the starts cut short so far. -/
structure Told (cut : Prop) (w : World) : Prop where
  users : w.db.setting "ui.advanced_default" = none → cut → (w.db.tables "users").isSome = true
  idle : w.db.setting "ui.advanced_default" = none → (w.db.tables "users").isSome = true →
    (∀ pid u e d, w.phase pid ≠ .initialising u e d) → cut
  upgrading : w.db.setting "ui.advanced_default" = none → ∀ pid u e d, w.phase pid = .initialising u e d → (u = true ↔ cut)
  told : ∀ r, w.db.setting "ui.advanced_default" = some r → ∃ b : Bool, cellOf r "value" = .text (if b then "1" else "0") ∧ (b = true ↔ cut)

section
variable {E : Targets.Env} {w v : World} {cut : Prop}

/-- A step that leaves the database and the initialising worker alone. -/
theorem Told.frame (h : Told cut w) (hdb : v.db = w.db)
    (hphase : ∀ pid u e d, v.phase pid = .initialising u e d ↔ w.phase pid = .initialising u e d) : Told cut v := by
  obtain ⟨husers,hidle,hupgrading,htold⟩ := h
  refine ⟨hdb ▸ husers,?_,?_,hdb ▸ htold⟩
  · rw [hdb]
    exact fun hset hex hno => hidle hset hex (fun pid u e d hp => hno pid u e d ((hphase pid u e d).mpr hp))
  · rw [hdb]
    exact fun hset pid u e d hp => hupgrading hset pid u e d ((hphase pid u e d).mp hp)

theorem initialising_enter {pid : ℕ} {p : Phase} (hp : ∀ u e d, p ≠ .initialising u e d) (hw : ∀ u e d, w.phase pid ≠ .initialising u e d)
    (q : ℕ) (u : Bool) (e : Option (List String)) (d : ℕ) :
    (w.enter pid p).phase q = .initialising u e d ↔ w.phase q = .initialising u e d := by
  rw [enter_phase]
  split
  · next h => exact ⟨fun h' => absurd h' (hp u e d),fun h' => absurd (h ▸ h') (hw u e d)⟩
  · rfl

theorem users_isSome_keeps {db db' : Database} (h : Keeps db db') (hu : (db.tables "users").isSome = true) :
    (db'.tables "users").isSome = true := by
  obtain ⟨t,ht⟩ := Option.isSome_iff_exists.mp hu
  obtain ⟨t',ht',-⟩ := h.tables _ t ht
  exact Option.isSome_iff_exists.mpr ⟨t',ht'⟩

/-- A setting that is there stays as it says. -/
theorem Told.told_keeps {db' : Database} {r' : SqlTable.Members} (h : Told cut w) (hk : Keeps w.db db')
    (hset : w.db.setting "ui.advanced_default" ≠ none) (hr' : db'.setting "ui.advanced_default" = some r') :
    ∃ b : Bool, cellOf r' "value" = .text (if b then "1" else "0") ∧ (b = true ↔ cut) := by
  obtain ⟨r,hr⟩ := Option.ne_none_iff_exists'.mp hset
  obtain ⟨r₁,hr₁,hvalue⟩ := hk.setting _ r hr
  rw [hr'] at hr₁
  obtain rfl := Option.some_inj.mp hr₁
  rw [hvalue]
  exact h.told r hr

theorem unset_of_keeps {db db' : Database} {key : String} (h : Keeps db db') (hset : db'.setting key = none) : db.setting key = none := by
  cases hr : db.setting key with
  | none => rfl
  | some r =>
    obtain ⟨r',hr',-⟩ := h.setting key r hr
    cases hset.symm.trans hr'

theorem Told.init_step (hi : Inv w) (h : Told cut w) {pid done : ℕ} {upgrading : Bool} {existing : Option (List String)} {now : String}
    {s : Statement} {db' : Database} {p : Phase} (hp : w.phase pid = .initialising upgrading existing done) (hs : STATEMENTS[done]? = some s)
    (hstep : Stepped w.db now upgrading existing done s db' p) : Told cut { w.enter pid p with db := db' } := by
  obtain ⟨existing',done',rfl,-⟩ := hstep.progress (hi.progress pid _ _ _ hp) hs
  have hmine := (hi.lock pid).mpr ⟨_,_,_,hp⟩
  have hk := hstep.keeps.1
  refine ⟨fun hset hcut => users_isSome_keeps hk (h.users (unset_of_keeps hk hset) hcut),fun _ _ hno => ?_,fun hset q u e d hq => ?_,
    fun r hr => ?_⟩
  · exact absurd (Function.update_self pid _ w.phase) (hno pid upgrading existing' done')
  · have hwas := h.upgrading (unset_of_keeps hk hset)
    rw [show World.phase _ q = _ from enter_phase w pid q _] at hq
    split at hq
    · obtain ⟨rfl,-,-⟩ := Phase.initialising.inj hq
      exact hwas pid _ _ _ hp
    · exact hwas q u e d hq
  · by_cases hset : w.db.setting "ui.advanced_default" = none
    · have hset' : db'.setting "ui.advanced_default" ≠ none := by
        rw [show db'.setting "ui.advanced_default" = some r from hr]
        exact Option.some_ne_none r
      cases hstep with
      | read => exact absurd hset hset'
      | skipped => exact absurd hset hset'
      | executed hd hvalue =>
        have hinsert : s = .insertSetting "ui.advanced_default" := by
          by_contra hne
          exact hset' (hd.unset _ hset hne)
        refine ⟨upgrading,?_,h.upgrading hset pid _ _ _ hp⟩
        have hrow := hvalue _ hinsert hset
        rw [show db'.setting "ui.advanced_default" = some r from hr] at hrow
        rw [Option.some_inj.mp hrow]
        simp [Database.settingRow, cellOf]
    · exact h.told_keeps hk hset hr

theorem Told.step {a : Event} (hi : Inv w) (h : Told cut w) (hs : Step E w a v) : Told (cut ∨ CutShort ⟨w,a,v⟩) v := by
  have hsame : (∀ pid, a ≠ .die pid) → (cut ∨ CutShort ⟨w,a,v⟩) = cut := by
    intro hne
    refine propext ⟨fun hor => hor.resolve_right ?_,Or.inl⟩
    rintro ⟨pid,hlabel,-⟩
    exact hne pid hlabel
  cases hs with
  | start hp =>
    rw [hsame nofun]
    exact h.frame rfl (initialising_enter (by simp) (by simp [hp]))
  | @lock pid hp hfree =>
    rw [hsame nofun]
    -- nobody is initialising, so that users without the setting come from a start cut short
    have hnone : ∀ q u e d, w.phase q ≠ .initialising u e d := by
      intro q u e d hq
      have hlock := (hi.lock q).mpr ⟨u,e,d,hq⟩
      cases hfree.symm.trans hlock
    refine ⟨h.users,fun hset hex _ => h.idle hset hex hnone,fun hset q u e d hq => ?_,h.told⟩
    rw [show (w.lock pid).phase q = _ from enter_phase _ _ _ _] at hq
    split at hq
    · obtain ⟨rfl,-,-⟩ := Phase.initialising.inj hq
      exact ⟨fun hex => h.idle hset hex hnone,h.users hset⟩
    · exact absurd hq (hnone q u e d)
  | init hp hs hstep =>
    rw [hsame nofun]
    obtain ⟨db'',p',hstep',hstepped⟩ := @initStep_stepped _ _ _ _ _ _ hi.grown (hi.progress _ _ _ _ hp) hs
    rw [hstep] at hstep'
    obtain ⟨rfl,rfl⟩ := Prod.mk.inj (Option.some_inj.mp hstep')
    exact h.init_step hi hp hs hstepped
  | raise hp hs hstep =>
    obtain ⟨db'',p',hstep',-⟩ := @initStep_stepped _ _ _ _ _ _ hi.grown (hi.progress _ _ _ _ hp) hs
    cases hstep.symm.trans hstep'
  | @finish pid upgrading hp =>
    rw [hsame nofun]
    have hcomplete : Complete w.db := complete_of_holds (fun s hs => (hi.progress pid _ _ _ hp).holds s (by rwa [List.take_length]))
    have hset : w.db.setting "ui.advanced_default" ≠ none := Option.isSome_iff_ne_none.mp hcomplete.setting
    exact ⟨fun hno => absurd hno hset,fun hno => absurd hno hset,fun hno => absurd hno hset,h.told⟩
  | @elect pid opens hp =>
    rw [hsame nofun]
    unfold World.elect
    split
    · exact h.frame rfl (initialising_enter (by simp) (by simp [hp]))
    · exact h.frame rfl (initialising_enter (by simp) (by simp [hp]))
  | @die pid =>
    by_cases hp : ∃ u e d, w.phase pid = .initialising u e d
    · have hmine := (hi.lock pid).mpr hp
      have hnone : ∀ q u e d, (w.gone pid).phase q ≠ .initialising u e d := by
        intro q u e d hq
        rw [gone_phase] at hq
        split at hq
        · cases hq
        · next hne =>
          have hother := (hi.lock q).mpr ⟨_,_,_,hq⟩
          exact hne (Option.some_inj.mp (hother.symm.trans hmine))
      have hcut : w.db.setting "ui.advanced_default" = none → (w.db.tables "users").isSome = true → CutShort ⟨w,.die pid,w.gone pid⟩ :=
        fun hset hex => ⟨pid,rfl,hp,hex,hset⟩
      refine ⟨fun hset hor => ?_,fun hset hex _ => Or.inr (hcut hset hex),fun _ q u e d hq => absurd hq (hnone q u e d),fun r hr => ?_⟩
      · rcases hor with hor | ⟨_,-,-,hex,-⟩
        · exact h.users hset hor
        · exact hex
      · obtain ⟨b,hb,hiff⟩ := h.told r hr
        refine ⟨b,hb,hiff.trans ⟨Or.inl,fun hor => hor.resolve_right ?_⟩⟩
        rintro ⟨_,-,-,-,hset⟩
        cases hset.symm.trans hr
    · have hsame' : (cut ∨ CutShort ⟨w,.die pid,w.gone pid⟩) = cut := by
        refine propext ⟨fun hor => hor.resolve_right ?_,Or.inl⟩
        rintro ⟨pid',hlabel,hinit,-⟩
        obtain rfl := Event.die.inj hlabel
        exact hp hinit
      rw [hsame']
      refine h.frame rfl (fun q u e d => ?_)
      rw [gone_phase]
      split
      · next hq => exact ⟨nofun,fun hw => absurd ⟨u,e,d,hq ▸ hw⟩ hp⟩
      · rfl
  | @elsewhere db' he =>
    rw [hsame nofun]
    refine ⟨fun hset hcut => users_isSome_keeps he.keeps (h.users (unset_of_keeps he.keeps hset) hcut),fun hset hex hno => ?_,
      fun hset => h.upgrading (unset_of_keeps he.keeps hset),fun r hr => ?_⟩
    · obtain ⟨t',ht'⟩ := Option.isSome_iff_exists.mp hex
      obtain ⟨columns,hcreate⟩ : ∃ columns, .createTable "users" columns ∈ STATEMENTS := ⟨_,users_created⟩
      obtain ⟨t,ht,-⟩ := he.columns _ columns t' hcreate ht'
      exact h.idle (unset_of_keeps he.keeps hset) (Option.isSome_iff_exists.mpr ⟨t,ht⟩) hno
    · by_cases hset : w.db.setting "ui.advanced_default" = none
      · cases (he.unset hset).symm.trans hr
      · exact h.told_keeps he.keeps hset hr

theorem told_of_trace {init : World} {ts : List Move} (h : Trace (Step E) init ts w) (hf : Fresh init) :
    Told (∃ t ∈ ts, CutShort t) w := by
  induction h with
  | nil =>
    refine ⟨fun _ ⟨_,ht,_⟩ => absurd ht List.not_mem_nil,fun _ hex => ?_,fun _ pid u e d hp => ?_,fun r hr => ?_⟩
    · rw [hf.users] at hex
      cases hex
    · cases (hf.phase pid).symm.trans hp
    · cases hf.unset.symm.trans hr
  | @snoc ts w v a h hs ih =>
    have hstep := ih.step (inv_of_trace h hf.toCold).1 hs
    have hiff : (∃ t ∈ ts ++ [⟨w,a,v⟩], CutShort t) = ((∃ t ∈ ts, CutShort t) ∨ CutShort ⟨w,a,v⟩) := by
      refine propext ⟨?_,?_⟩
      · rintro ⟨t,ht,hcut⟩
        rcases List.mem_append.mp ht with ht | ht
        · exact Or.inl ⟨t,ht,hcut⟩
        · rw [List.mem_singleton.mp ht] at hcut
          exact Or.inr hcut
      · rintro (⟨t,ht,hcut⟩ | hcut)
        · exact ⟨t,List.mem_append_left _ ht,hcut⟩
        · exact ⟨_,List.mem_append_right _ List.mem_cons_self,hcut⟩
    rw [hiff]
    exact hstep

end

/-- A fresh install opens with the simple menu, unless a start of it has died between its table of users and its setting: the next
one takes it for an upgrade. -/
theorem fresh_install_opens_simple {E : Targets.Env} {init w : World} {ts : List Move} {pid : ℕ} (h : Trace (Step E) init ts w)
    (hf : Fresh init) (hpid : w.phase pid = .initialised ∨ ∃ polls, w.phase pid = .ready polls) :
    (w.db.text "ui.advanced_default" = some "0" ↔ ∀ t ∈ ts, ¬ CutShort t) ∧
      (w.db.text "ui.advanced_default" = some "1" ↔ ∃ t ∈ ts, CutShort t) := by
  obtain ⟨r,hr⟩ := Option.isSome_iff_exists.mp ((inv_of_trace h hf.toCold).1.complete pid hpid).setting
  obtain ⟨b,hvalue,hiff⟩ := (told_of_trace h hf).told r hr
  have htext : w.db.text "ui.advanced_default" = some (if b then "1" else "0") := by
    unfold Database.text
    rw [hr, Option.map_some, hvalue]
  rw [htext, ← hiff]
  cases b with
  | true =>
    obtain ⟨t,ht,hcut⟩ := hiff.mp rfl
    exact ⟨⟨fun h0 => absurd h0 (by decide),fun hno => absurd hcut (hno t ht)⟩,by simp⟩
  | false =>
    refine ⟨⟨fun _ t ht hcut => ?_,fun _ => rfl⟩,by simp⟩
    cases hiff.mpr ⟨t,ht,hcut⟩

/-! ## The poller -/

section
variable {E : Targets.Env} {w : World} {pid : ℕ}

def Own (pid : ℕ) (now : String) (t : Move) : Prop := t.label = .init pid now ∨ t.label = .finish pid

/-- A start does not set the role. -/
theorem role_unset {db db' : Database} {now : String} {upgrading : Bool} {existing : Option (List String)} {done : ℕ} {s : Statement}
    {p : Phase} (hs : s ∈ STATEMENTS) (h : Stepped db now upgrading existing done s db' p) (hrole : db.setting "ha.role" = none) :
    db'.setting "ha.role" = none := by
  have hother : ∀ s ∈ STATEMENTS, s ≠ .insertSetting "ha.role" := by decide
  cases h with
  | read => exact hrole
  | skipped => exact hrole
  | executed hd => exact hd.unset _ hrole (hother s hs)

/-- With every step of its own a worker comes closer to the end of `init_db`. -/
theorem start_completes {upgrading : Bool} {existing : Option (List String)} {done : ℕ} (now : String) (hi : Inv w)
    (hp : w.phase pid = .initialising upgrading existing done) :
    ∃ ts v, Trace (Step E) w ts v ∧ (∀ t ∈ ts, Own pid now t) ∧ v.phase pid = .initialised ∧
      (w.db.setting "ha.role" = none → v.db.setting "ha.role" = none) := by
  generalize hn : 2 * (STATEMENTS.length - done) + (if existing = none then 1 else 0) = n
  induction n using Nat.strong_induction_on generalizing w existing done with
  | _ n ih =>
    have hprogress := hi.progress pid _ _ _ hp
    rcases hprogress.bound.lt_or_eq with hdone | rfl
    · have hs : STATEMENTS[done]? = some STATEMENTS[done] := List.getElem?_eq_getElem hdone
      obtain ⟨db',p,hinit,hstepped⟩ := @initStep_stepped _ now upgrading _ _ _ hi.grown hprogress hs
      have hstep : Step E w (.init pid now) { w.enter pid p with db := db' } := .init hp hs hinit
      obtain ⟨existing',done',rfl,-⟩ := hstepped.progress hprogress hs
      have hless : 2 * (STATEMENTS.length - done') + (if existing' = none then 1 else 0) < n := by
        rw [← hn]
        generalize hp' : Phase.initialising upgrading existing' done' = p' at hstepped
        cases hstepped with
        | read _ he =>
          obtain ⟨-,rfl,rfl⟩ := Phase.initialising.inj hp'
          rw [if_neg (Option.some_ne_none _), if_pos he]
          omega
        | skipped =>
          obtain ⟨-,rfl,rfl⟩ := Phase.initialising.inj hp'
          rw [if_pos rfl]
          split <;> omega
        | executed =>
          obtain ⟨-,rfl,rfl⟩ := Phase.initialising.inj hp'
          rw [if_pos rfl]
          split <;> omega
      obtain ⟨ts,v,htrace,hown,hv,hunset⟩ := ih _ hless (hi.step hstep) (Function.update_self pid _ w.phase) rfl
      refine ⟨_,v,(Trace.single hstep).append htrace,fun t ht => ?_,hv,fun hrole => hunset ?_⟩
      rcases List.mem_append.mp ht with ht | ht
      · rw [List.mem_singleton.mp ht]
        exact Or.inl rfl
      · exact hown t ht
      · exact role_unset (List.getElem_mem hdone) hstepped hrole
    · have hread : existing = none := by
        cases existing with
        | none => rfl
        | some columns =>
          obtain ⟨table,column,definition,hs,-⟩ := hprogress.read columns rfl
          rw [List.getElem?_eq_none le_rfl] at hs
          cases hs
      rw [hread] at hp
      refine ⟨_,_,.single (.finish hp),fun t ht => ?_,Function.update_self pid _ w.phase,id⟩
      rw [List.mem_singleton.mp ht]
      exact Or.inr rfl

end

def bootEnv : Targets.Env where
  caseMap := .ascii
  charTable := .ascii
  compile _ := none
  reputation _ := none
  parseIso _ := none

def emptyHost : World := ⟨⟨fun _ => none,fun _ => none,fun _ => none⟩,fun _ => .absent,none,none⟩

theorem emptyHost_fresh : Fresh emptyHost :=
  { phase := fun _ => rfl
    initLock := rfl
    pollerLock := rfl
    grown := fun _ _ _ _ ht => by cases ht
    users := rfl
    unset := rfl }

/-- One worker starts on an empty disk and is through with its start. -/
theorem emptyHost_trace : ∃ ts v, Trace (Step bootEnv) emptyHost ts v ∧ v.phase 7 = .initialised ∧ (∀ t ∈ ts, ∀ pid, t.label ≠ .die pid) ∧
    v.db.setting "ha.role" = none := by
  have hstart : Step bootEnv emptyHost (.start 7) (emptyHost.enter 7 .waiting) := .start rfl
  have hlock : Step bootEnv (emptyHost.enter 7 .waiting) (.lock 7) ((emptyHost.enter 7 .waiting).lock 7) :=
    .lock ((enter_phase _ _ _ _).trans (if_pos rfl)) rfl
  have hi : Inv ((emptyHost.enter 7 .waiting).lock 7) := (emptyHost_fresh.inv.step hstart).step hlock
  obtain ⟨ts,v,htrace,hown,hv,hunset⟩ := start_completes (E := bootEnv) "2026-10-15T06:00:00+00:00" hi
    ((enter_phase _ _ _ _).trans (if_pos rfl))
  refine ⟨_,v,((Trace.single hstart).snoc hlock).append htrace,hv,fun t ht pid hdie => ?_,hunset rfl⟩
  rcases List.mem_append.mp ht with ht | ht
  · simp only [List.nil_append, List.cons_append, List.mem_cons, List.not_mem_nil, or_false] at ht
    rcases ht with rfl | rfl <;> cases hdie
  · rcases hown t ht with h | h <;> cases h.symm.trans hdie

theorem fresh_install_opens_simple_example : ∃ ts v, Trace (Step bootEnv) emptyHost ts v ∧ v.db.text "ui.advanced_default" = some "0" := by
  obtain ⟨ts,v,htrace,hv,hdie,-⟩ := emptyHost_trace
  refine ⟨ts,v,htrace,(fresh_install_opens_simple htrace emptyHost_fresh (Or.inl hv)).1.mpr ?_⟩
  rintro t ht ⟨pid,hlabel,-⟩
  exact hdie t ht pid hlabel

end Protek.Store.Schema
