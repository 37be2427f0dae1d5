import Protek.Foundation.Trace
import Protek.Mirror.Apply
import Protek.Targets.Synthetic

/-! # Self-tests beside the pulls

The statements of any number of self-tests and pulls in any order. All self-tests write
the same row, each under its own number, and each deletes by its number at the end.
-/
namespace Protek.Targets
open Foundation Foundation.Clock Protek.Store Protek.Mirror

/-! ## The steps of a self-test -/

/-- Where a call of `run_test` is. -/
inductive TestPhase
  | idle
  | begun
  | numbered (lapiId : ℤ)
  | inserted (lapiId : ℤ)
  | ending (lapiId : ℤ)
  | finished
  | orphaned (lapiId : ℤ)
  deriving DecidableEq

/-- The next statement on `decisions`. -/
def advanceTest (db : Db) (now : Instant) : TestPhase → Db × TestPhase
  | .begun => (db,.numbered (nextLapiId db))
  | .numbered lapiId => (insertSynthDecision db lapiId now,.inserted lapiId)
  | .inserted lapiId => (softDeleteSynth db lapiId now,.ending lapiId)
  | .ending lapiId => (hardPurgeSynth db lapiId,.finished)
  | phase => (db,phase)

/-- Something raises, or the body returns since no target is live. What follows is the `finally`;
where the purge itself raises, the call goes on to its end without it. -/
def leaveTest : TestPhase → TestPhase
  | .begun => .finished
  | .numbered lapiId => .ending lapiId
  | .inserted lapiId => .ending lapiId
  | .ending lapiId => .orphaned lapiId
  | phase => phase

def TestPhase.ended : TestPhase → Bool
  | .idle => true
  | .finished => true
  | .orphaned _ => true
  | _ => false

/-! ## The steps of a pull -/

/-- A statement of a pull; the last one reads the rows that the full pull did not list and has one UPDATE for each. -/
inductive PullOp
  | send (st : Stmt)
  | tombstoneUnseen (decisions : List LapiDecision) (now : String)

def source : Stmt → String
  | .upsertDecision name _ _ => name
  | .tombstoneIdentity name _ _ => name
  | .tombstoneLapiId name _ _ => name
  | .seeIp _ name _ => name

/-- What is left of a pull, all of it in the name of one source. -/
structure Pull where
  name : String
  ops : List PullOp
  owned : ∀ st, PullOp.send st ∈ ops → source st = name

/-- What the LAPI of a source answered. -/
inductive PullAnswer
  | full (decisions : List LapiDecision)
  | delta (new deleted : List LapiDecision)

def pullOps (name now : String) : PullAnswer → List PullOp
  | .full decisions =>
    (upsertStmts name now decisions).map .send ++ .tombstoneUnseen decisions now :: (decisions.flatMap (seeIpStmt name now)).map .send
  | .delta new deleted => (streamStmts name new deleted now).map .send

theorem source_seeIp {name now : String} {d : LapiDecision} {st : Stmt} (h : st ∈ seeIpStmt name now d) : source st = name := by
  rw [seeIpStmt] at h
  split at h
  · exact absurd h List.not_mem_nil
  · rw [List.mem_singleton.mp h]
    rfl

theorem source_pullOps (name now : String) (answer : PullAnswer) (st : Stmt) (h : PullOp.send st ∈ pullOps name now answer) :
    source st = name := by
  cases answer with
  | full decisions =>
    simp only [pullOps, upsertStmts, List.mem_append, List.mem_cons, List.mem_map, reduceCtorEq, false_or, PullOp.send.injEq] at h
    rcases h with ⟨_,⟨d,-,rfl⟩,rfl⟩ | ⟨_,hst,rfl⟩
    · rfl
    · obtain ⟨d,-,hd⟩ := List.mem_flatMap.mp hst
      exact source_seeIp hd
  | delta new deleted =>
    simp only [pullOps, streamStmts, List.mem_map, List.mem_append, List.mem_flatMap, List.mem_cons, PullOp.send.injEq] at h
    rcases h with ⟨_,⟨d,-,rfl | hd⟩ | ⟨d,-,rfl⟩,rfl⟩
    · rfl
    · exact source_seeIp hd
    · rfl

def Pull.start (name now : String) (answer : PullAnswer) : Pull := ⟨name,pullOps name now answer,source_pullOps name now answer⟩

def Pull.idle : Pull := ⟨"local",[],by simp⟩

/-- The UPDATEs of the rows that the SELECT returns. -/
def unseenOps (name : String) (decisions : List LapiDecision) (now : String) (db : Db) : List PullOp :=
  (unseenKeys name decisions db).map (fun k => .send (.tombstoneIdentity name k now))

def advanceOps (db : Db) (name : String) : List PullOp → Db × List PullOp
  | [] => (db,[])
  | .send st :: rest => (exec db st,rest)
  | .tombstoneUnseen decisions now :: rest => (db,unseenOps name decisions now db ++ rest)

theorem owned_advanceOps {db : Db} {name : String} {ops : List PullOp} (h : ∀ st, PullOp.send st ∈ ops → source st = name) (st : Stmt)
    (hst : PullOp.send st ∈ (advanceOps db name ops).2) : source st = name := by
  match ops with
  | [] => exact absurd hst List.not_mem_nil
  | .send _ :: rest => exact h st (List.mem_cons_of_mem _ hst)
  | .tombstoneUnseen decisions now :: rest =>
    rcases List.mem_append.mp hst with hst | hst
    · obtain ⟨k,-,hk⟩ := List.mem_map.mp hst
      rw [← PullOp.send.inj hk]
      rfl
    · exact h st (List.mem_cons_of_mem _ hst)

def Pull.rest (p : Pull) (db : Db) : Pull := ⟨p.name,(advanceOps db p.name p.ops).2,owned_advanceOps p.owned⟩

/-! ## Interleavings -/

/-- The database, the calls of `run_test` and the pulls of the workers. -/
structure TestWorld (ι κ : Type*) where
  db : Db
  runs : ι → TestPhase
  pulls : κ → Pull

/-- A step of a call or of a worker. -/
inductive TestAct (ι κ : Type*)
  | begin (i : ι)
  | advance (i : ι) (now : Instant)
  | leave (i : ι)
  | pull (k : κ) (name now : String) (answer : PullAnswer)
  | statement (k : κ)

variable {ι κ : Type*}

def TestAct.isPull : TestAct ι κ → Bool
  | .pull _ _ _ _ => true
  | .statement _ => true
  | _ => false

section
variable [DecidableEq ι] [DecidableEq κ]

/-- A pull that is begun anew has failed in between, or is over. -/
def TestWorld.next (w : TestWorld ι κ) : TestAct ι κ → TestWorld ι κ
  | .begin i => { w with runs := Function.update w.runs i (if w.runs i = .idle then .begun else w.runs i) }
  | .advance i now =>
    { w with
      db := (advanceTest w.db now (w.runs i)).1
      runs := Function.update w.runs i (advanceTest w.db now (w.runs i)).2 }
  | .leave i => { w with runs := Function.update w.runs i (leaveTest (w.runs i)) }
  | .pull k name now answer => { w with pulls := Function.update w.pulls k (Pull.start name now answer) }
  | .statement k =>
    { w with
      db := (advanceOps w.db (w.pulls k).name (w.pulls k).ops).1
      pulls := Function.update w.pulls k ((w.pulls k).rest w.db) }

end

def TestWorld.start (db : Db) : TestWorld ι κ := ⟨db,fun _ => .idle,fun _ => .idle⟩

/-! ## Alone, a call is `runTest` and a pull is its list of statements -/

def uninterrupted (i : ι) (now : Instant) : List (TestAct ι κ) := [.begin i,.advance i now,.advance i now,.advance i now,.advance i now]

/-- The call of a test without live targets. -/
def skipped (i : ι) (now : Instant) : List (TestAct ι κ) := [.begin i,.advance i now,.leave i,.advance i now]

theorem nextLapiId_lt {db : Db} {r : DecisionRow} (hr : r ∈ db.decisions.rows) (hsrc : r.originSource = SYNTH_ORIGIN) :
    nextLapiId db < r.lapiId := by
  have hmem : r.lapiId ∈ (db.decisions.rows.filter (fun r => r.originSource = SYNTH_ORIGIN)).map DecisionRow.lapiId :=
    List.mem_map_of_mem (List.mem_filter.mpr ⟨hr,decide_eq_true hsrc⟩)
  rw [nextLapiId]
  generalize (db.decisions.rows.filter (fun r => r.originSource = SYNTH_ORIGIN)).map DecisionRow.lapiId = ids at hmem
  obtain ⟨m,hm⟩ : ∃ m, ids.min? = some m := Option.isSome_iff_exists.mp (List.isSome_min?_of_mem hmem)
  have hle : m ≤ r.lapiId := (List.min?_eq_some_iff.mp hm).2 _ hmem
  rw [hm, Option.getD_some]
  exact (sub_one_lt _).trans_le ((min_le_left m 0).trans hle)

/-- A number that no row has deletes nothing. -/
theorem hardPurgeSynth_nextLapiId (db : Db) : (hardPurgeSynth db (nextLapiId db)).decisions.rows = db.decisions.rows := by
  refine List.filter_eq_self.mpr (fun r hr => ?_)
  have hnot : isSynth (nextLapiId db) r = false := decide_eq_false (fun hsynth => (nextLapiId_lt hr hsynth.1).ne hsynth.2.symm)
  rw [hnot]
  rfl

section
variable [DecidableEq ι] [DecidableEq κ]

theorem runTest_uninterrupted (U : PyText.CaseMap) (envDryRun : Option String) (db : Db) (table : TargetTable) (probes : List Probe)
    (now : Instant) (i : ι) :
    (runTest U envDryRun db table probes now).db.decisions.rows =
      ((if probes.filter (fun p => isLive U db.settings envDryRun table p.target) = [] then skipped i now else uninterrupted i now).foldl
        TestWorld.next (.start db : TestWorld ι κ)).db.decisions.rows := by
  rw [runTest]
  split
  · simp only [skipped, List.foldl_cons, List.foldl_nil, TestWorld.next, TestWorld.start, Function.update_self, if_true, advanceTest,
      leaveTest, hardPurgeSynth_nextLapiId]
    rfl
  · simp only [uninterrupted, List.foldl_cons, List.foldl_nil, TestWorld.next, TestWorld.start, Function.update_self, if_true, advanceTest]
    rfl

end

/-- The statements of a pull that nothing interrupts. -/
def answerStmts (name now : String) (db : Db) : PullAnswer → List Stmt
  | .full decisions => bootstrapStmts name decisions now db
  | .delta new deleted => streamStmts name new deleted now

theorem iterate_send (name : String) (stmts : List Stmt) (rest : List PullOp) (db : Db) :
    (fun s => advanceOps s.1 name s.2)^[stmts.length] (db,stmts.map .send ++ rest) = (execAll db stmts,rest) := by
  induction stmts generalizing db with
  | nil => rfl
  | cons st stmts ih => exact ih (exec db st)

theorem pull_uninterrupted (name now : String) (answer : PullAnswer) (db : Db) :
    ∃ n, (fun s => advanceOps s.1 name s.2)^[n] (db,pullOps name now answer) = (execAll db (answerStmts name now db answer),[]) := by
  cases answer with
  | delta new deleted =>
    refine ⟨(streamStmts name new deleted now).length,?_⟩
    rw [pullOps, ← List.append_nil ((streamStmts name new deleted now).map PullOp.send)]
    exact iterate_send name _ [] db
  | full decisions =>
    obtain ⟨upserted,hupserted⟩ : ∃ db', db' = execAll db (upsertStmts name now decisions) := ⟨_,rfl⟩
    obtain ⟨keys,hkeys⟩ : ∃ keys, keys = unseenKeys name decisions upserted := ⟨_,rfl⟩
    obtain ⟨sees,hsees⟩ : ∃ sees, sees = decisions.flatMap (seeIpStmt name now) := ⟨_,rfl⟩
    have hops : unseenOps name decisions now upserted ++ sees.map PullOp.send =
        (keys.map (fun k => Stmt.tombstoneIdentity name k now) ++ sees).map PullOp.send ++ [] := by
      rw [unseenOps, ← hkeys, List.append_nil, List.map_append, List.map_map]
      rfl
    refine ⟨(keys.map (fun k => Stmt.tombstoneIdentity name k now) ++ sees).length + (1 + (upsertStmts name now decisions).length),?_⟩
    rw [pullOps, ← hsees, Function.iterate_add_apply, Function.iterate_add_apply, iterate_send, ← hupserted, Function.iterate_one]
    change (fun s => advanceOps s.1 name s.2)^[_] (upserted,unseenOps name decisions now upserted ++ sees.map PullOp.send) = _
    rw [hops, iterate_send, answerStmts, bootstrapStmts, ← hupserted, ← hkeys, ← hsees, execAll, execAll, hupserted, execAll,
      ← List.foldl_append, List.append_assoc]

/-! ## The rows of some sources -/

def rowsOf (q : String → Bool) (db : Db) : List DecisionRow := db.decisions.rows.filter (fun r => q r.originSource)

def unnumbered (r : DecisionRow) : DecisionRow := { r with id := 0 }

/-- The rows that are not of the self-test's origin, without the numbers that the table gave them. -/
def others (db : Db) : List DecisionRow := (rowsOf (· ≠ SYNTH_ORIGIN) db).map unnumbered

section
variable {q : String → Bool} {db db' : Db} {p : DecisionRow → Bool} {f : DecisionRow → DecisionRow} {hf : ∀ r, (f r).key = r.key}
  {fresh : DecisionRow} {merge : DecisionRow → DecisionRow} {hm : ∀ r, (merge r).key = r.key} {name now : String} {st : Stmt}

theorem rowsOf_upsertDecision (h : q fresh.originSource = false) : rowsOf q (db.upsertDecision fresh merge hm) = rowsOf q db :=
  KeyedTable.filter_upsertRows (q := fun k : String × Identity => q k.1) hm h

theorem rowsOf_updateDecisions (h : ∀ r, p r = true → q r.originSource = false) : rowsOf q (db.updateDecisions p f hf) = rowsOf q db := by
  change (db.decisions.rows.map (fun r => if p r then f r else r)).filter (fun r => q r.originSource) = _
  rw [rowsOf]
  induction db.decisions.rows with
  | nil => rfl
  | cons r rows ih =>
    cases hp : p r with
    | true =>
      have hout := h r hp
      have hsame : (f r).originSource = r.originSource := congrArg Prod.fst (hf r)
      rw [List.map_cons, hp, if_pos rfl, List.filter_cons_of_neg (by simp [hsame, hout]), List.filter_cons_of_neg (by simp [hout]), ih]
    | false => rw [List.map_cons, hp, if_neg (by decide), List.filter_cons, List.filter_cons, ih]

theorem rowsOf_tombstone (h : ∀ r, p r = true → q r.originSource = false) : rowsOf q (db.tombstone p now) = rowsOf q db :=
  rowsOf_updateDecisions h

theorem rowsOf_exec (h : q (source st) = false) : rowsOf q (exec db st) = rowsOf q db := by
  have hother : ∀ {name : String} {r : DecisionRow}, q name = false → r.originSource = name → q r.originSource = false :=
    fun hname hr => hr ▸ hname
  cases st with
  | upsertDecision name d now => exact rowsOf_upsertDecision h
  | tombstoneIdentity name k now => exact rowsOf_tombstone (fun r hr => hother h (of_decide_eq_true hr).1)
  | tombstoneLapiId name i now => exact rowsOf_tombstone (fun r hr => hother h (of_decide_eq_true hr).1)
  | seeIp ip name now => rfl

theorem others_upsertDecision (hfm : ∀ r, unnumbered (merge r) = merge (unnumbered r)) (h : fresh.originSource ≠ SYNTH_ORIGIN) :
    others (db.upsertDecision fresh merge hm) = KeyedTable.upsertRows DecisionRow.key (unnumbered fresh) merge (others db) := by
  have hq : decide (({ fresh with id := db.decisionsSeq + 1 } : DecisionRow).key.1 ≠ SYNTH_ORIGIN) = true := decide_eq_true h
  exact KeyedTable.map_filter_upsertRows (q := fun k : String × Identity => k.1 ≠ SYNTH_ORIGIN) (f := unnumbered) (fun _ => rfl) hm hfm hq

theorem others_tombstone (hp : ∀ r, p (unnumbered r) = p r) :
    others (db.tombstone p now) = (others db).map (fun r => if p r then { r with deletedAt := some now } else r) := by
  change ((db.decisions.rows.map (fun r => if p r then { r with deletedAt := some now } else r)).filter
    (fun r => r.originSource ≠ SYNTH_ORIGIN)).map unnumbered = _
  rw [others, rowsOf, List.filter_map, List.map_map, List.map_map]
  have hsame : (fun r : DecisionRow => decide (r.originSource ≠ SYNTH_ORIGIN)) ∘
      (fun r => if p r then { r with deletedAt := some now } else r) = fun r => decide (r.originSource ≠ SYNTH_ORIGIN) := by
    funext r
    dsimp only [Function.comp]
    split <;> rfl
  rw [hsame]
  refine List.map_congr_left (fun r _ => ?_)
  dsimp only [Function.comp]
  rw [hp]
  split <;> rfl

/-- What a statement of another source does to the other rows depends on these rows alone. -/
theorem others_exec (h : source st ≠ SYNTH_ORIGIN) (hdb : others db = others db') : others (exec db st) = others (exec db' st) := by
  cases st with
  | upsertDecision name d now =>
    have hone : ∀ db, others (exec db (.upsertDecision name d now)) =
        KeyedTable.upsertRows DecisionRow.key (unnumbered (freshRow name d now)) (refreshRow d now) (others db) :=
      fun db => others_upsertDecision (fun _ => rfl) h
    rw [hone, hone, hdb]
  | tombstoneIdentity name k now =>
    rw [exec, exec, others_tombstone (fun _ => rfl), others_tombstone (fun _ => rfl), hdb]
  | tombstoneLapiId name i now =>
    rw [exec, exec, others_tombstone (fun _ => rfl), others_tombstone (fun _ => rfl), hdb]
  | seeIp ip name now => exact hdb

theorem unseenKeys_of_others (h : name ≠ SYNTH_ORIGIN) (decisions : List LapiDecision) (db : Db) :
    unseenKeys name decisions db =
      ((((others db).filter DecisionRow.active).filter (fun r => r.originSource = name)).map DecisionRow.identity).filter
        (fun k => k ∉ decisions.map recordedKey) := by
  have hrows : ((db.activeRows.filter (fun r => r.originSource = name)).map DecisionRow.identity) =
      (((others db).filter DecisionRow.active).filter (fun r => r.originSource = name)).map DecisionRow.identity := by
    rw [others, List.filter_map, List.filter_map, List.map_map, rowsOf, Db.activeRows, List.filter_filter, List.filter_filter,
      List.filter_filter]
    refine congrArg (List.map DecisionRow.identity) (List.filter_congr (fun r _ => ?_))
    by_cases hr : r.originSource = name
    · simp [hr, h, unnumbered, DecisionRow.active]
    · simp [hr, unnumbered]
  rw [unseenKeys, hrows]

end

/-! ## The pulls do not see the self-tests -/

section
variable {q : String → Bool} {db db' : Db} {name : String}

theorem rowsOf_advanceTest (h : q SYNTH_ORIGIN = false) (db : Db) (now : Instant) (phase : TestPhase) :
    rowsOf q (advanceTest db now phase).1 = rowsOf q db := by
  have hsynth : ∀ {lapiId : ℤ} {r : DecisionRow}, isSynth lapiId r = true → q r.originSource = false := by
    intro lapiId r hr
    rw [(of_decide_eq_true hr).1, h]
  cases phase with
  | numbered lapiId => exact rowsOf_upsertDecision h
  | inserted lapiId => exact rowsOf_tombstone (fun _ => hsynth)
  | ending lapiId =>
    change (db.decisions.rows.filter (fun r => !isSynth lapiId r)).filter (fun r => q r.originSource) = _
    rw [List.filter_filter, rowsOf]
    refine List.filter_congr (fun r _ => ?_)
    cases hr : isSynth lapiId r with
    | true => rw [hsynth hr, Bool.false_and]
    | false => rw [Bool.not_false, Bool.and_true]
  | idle => rfl
  | begun => rfl
  | finished => rfl
  | orphaned lapiId => rfl

theorem rowsOf_advanceOps {ops : List PullOp} (howned : ∀ st, PullOp.send st ∈ ops → source st = name) (h : q name = false) :
    rowsOf q (advanceOps db name ops).1 = rowsOf q db := by
  match ops with
  | [] => rfl
  | .send st :: rest => exact rowsOf_exec (by rw [howned st List.mem_cons_self, h])
  | .tombstoneUnseen decisions now :: rest => rfl

theorem others_advanceOps {ops : List PullOp} (howned : ∀ st, PullOp.send st ∈ ops → source st = name) (h : name ≠ SYNTH_ORIGIN)
    (hdb : others db = others db') : others (advanceOps db name ops).1 = others (advanceOps db' name ops).1 ∧
      (advanceOps db name ops).2 = (advanceOps db' name ops).2 := by
  match ops with
  | [] => exact ⟨hdb,rfl⟩
  | .send st :: rest => exact ⟨others_exec (by rw [howned st List.mem_cons_self]; exact h) hdb,rfl⟩
  | .tombstoneUnseen decisions now :: rest =>
    refine ⟨hdb,?_⟩
    rw [advanceOps, advanceOps, unseenOps, unseenOps, unseenKeys_of_others h, unseenKeys_of_others h, hdb]

end

/-- The other rows are the same, and the pulls have come as far. -/
structure Agrees (w v : TestWorld ι κ) : Prop where
  rows : others w.db = others v.db
  names : ∀ k, (w.pulls k).name = (v.pulls k).name
  ops : ∀ k, (w.pulls k).name ≠ SYNTH_ORIGIN → (w.pulls k).ops = (v.pulls k).ops

section
variable [DecidableEq ι] [DecidableEq κ] {w v : TestWorld ι κ} {a : TestAct ι κ}

theorem Agrees.hidden (h : Agrees w v) (ha : a.isPull = false) : Agrees (w.next a) v := by
  cases a with
  | begin i => exact ⟨h.rows,h.names,h.ops⟩
  | advance i now =>
    have hsame : others (advanceTest w.db now (w.runs i)).1 = others w.db :=
      congrArg (List.map unnumbered) (rowsOf_advanceTest (by decide) w.db now (w.runs i))
    exact ⟨hsame.trans h.rows,h.names,h.ops⟩
  | leave i => exact ⟨h.rows,h.names,h.ops⟩
  | pull k name now answer => cases ha
  | statement k => cases ha

omit [DecidableEq ι] [DecidableEq κ] in
/-- The next statement of a pull: one of the test's origin does not touch the other rows, and another
one reads and writes them alike. -/
theorem Agrees.statement (h : Agrees w v) (k : κ) :
    others (advanceOps w.db (w.pulls k).name (w.pulls k).ops).1 = others (advanceOps v.db (v.pulls k).name (v.pulls k).ops).1 ∧
      ((w.pulls k).name ≠ SYNTH_ORIGIN →
        (advanceOps w.db (w.pulls k).name (w.pulls k).ops).2 = (advanceOps v.db (v.pulls k).name (v.pulls k).ops).2) := by
  by_cases hk : (w.pulls k).name = SYNTH_ORIGIN
  · have hw : others (advanceOps w.db (w.pulls k).name (w.pulls k).ops).1 = others w.db :=
      congrArg (List.map unnumbered) (rowsOf_advanceOps (w.pulls k).owned (by simp [hk]))
    have hv : others (advanceOps v.db (v.pulls k).name (v.pulls k).ops).1 = others v.db :=
      congrArg (List.map unnumbered) (rowsOf_advanceOps (v.pulls k).owned (by simp [← h.names k, hk]))
    exact ⟨hw.trans (h.rows.trans hv.symm),fun hne => absurd hk hne⟩
  · obtain ⟨hrows,hops⟩ := others_advanceOps (w.pulls k).owned hk h.rows
    rw [← h.names k, ← h.ops k hk]
    exact ⟨hrows,fun _ => hops⟩

theorem Agrees.visible (h : Agrees w v) (ha : a.isPull = true) : Agrees (w.next a) (v.next a) := by
  cases a with
  | begin i => cases ha
  | advance i now => cases ha
  | leave i => cases ha
  | pull k name now answer =>
    refine ⟨h.rows,fun j => ?_,fun j => ?_⟩ <;> by_cases hj : j = k
    · simp [TestWorld.next, hj]
    · simpa [TestWorld.next, hj] using h.names j
    · simp [TestWorld.next, hj]
    · simpa [TestWorld.next, hj] using h.ops j
  | statement k =>
    obtain ⟨hrows,hops⟩ := h.statement k
    refine ⟨hrows,fun j => ?_,fun j => ?_⟩ <;> by_cases hj : j = k
    · subst hj
      simpa [TestWorld.next, Pull.rest] using h.names j
    · simpa [TestWorld.next, hj] using h.names j
    · subst hj
      simpa [TestWorld.next, Pull.rest] using hops
    · simpa [TestWorld.next, hj] using h.ops j

/-- The other rows are those of the pulls without the self-tests. -/
theorem others_of_pulls (db : Db) (actions : List (TestAct ι κ)) :
    others (actions.foldl TestWorld.next (.start db)).db = others ((actions.filter TestAct.isPull).foldl TestWorld.next (.start db)).db := by
  have hstart : Agrees (TestWorld.start db : TestWorld ι κ) (.start db) := ⟨rfl,fun _ => rfl,fun _ _ => rfl⟩
  have hrun : Agrees (actions.foldl TestWorld.next (.start db)) ((actions.filter TestAct.isPull).foldl TestWorld.next (.start db)) :=
    foldl_filter_related (fun _ _ _ ha h => h.hidden ha) (fun _ _ _ ha h => h.visible ha) hstart actions
  exact hrun.rows

end

/-! ## The row of the self-tests -/

def testIdentity : Identity := (SYNTH_IP,"Ip", SYNTH_SCENARIO)

/-- The call has written its number into the row, and not deleted by it. -/
def TestPhase.Holds (lapiId : ℤ) : TestPhase → Prop
  | .inserted n => n = lapiId
  | .ending n => n = lapiId
  | .orphaned n => n = lapiId
  | _ => False

/-- The only row of the origin is the self-tests' own, and its number is the one of a call that holds it. -/
def Residue (w : TestWorld ι κ) : Prop := ∀ r ∈ w.db.decisions.rows, r.originSource = SYNTH_ORIGIN →
  r.identity = testIdentity ∧ ∃ i, (w.runs i).Holds r.lapiId

def TestAct.pulled : TestAct ι κ → Option String
  | .pull _ name _ _ => some name
  | _ => none

theorem mem_insertSynthDecision {db : Db} {lapiId : ℤ} {now : Instant} {r : DecisionRow}
    (h : r ∈ (insertSynthDecision db lapiId now).decisions.rows) :
    (r ∈ db.decisions.rows ∧ r.key ≠ (SYNTH_ORIGIN,testIdentity)) ∨ (r.identity = testIdentity ∧ r.lapiId = lapiId) := by
  refine (Db.mem_upsertDecision.mp h).imp_right ?_
  rintro rfl
  cases hf : db.decisions.find (synthRow lapiId now).key with
  | none => exact ⟨rfl,rfl⟩
  | some old => exact ⟨congrArg Prod.snd (KeyedTable.find_eq_some.mp hf).2,rfl⟩

theorem mem_softDeleteSynth {db : Db} {lapiId : ℤ} {now : Instant} {r : DecisionRow}
    (h : r ∈ (softDeleteSynth db lapiId now).decisions.rows) :
    ∃ q ∈ db.decisions.rows, r.key = q.key ∧ r.lapiId = q.lapiId := by
  obtain ⟨q,hq,rfl⟩ := List.mem_map.mp h
  refine ⟨q,hq,?_⟩
  split
  · exact ⟨rfl,rfl⟩
  · exact ⟨rfl,rfl⟩

section
variable [DecidableEq ι] [DecidableEq κ] {w : TestWorld ι κ} {a : TestAct ι κ}

omit [DecidableEq κ] in
theorem holds_update {i : ι} {phase : TestPhase} {lapiId : ℤ} (h : ∃ j, (w.runs j).Holds lapiId)
    (hkeep : (w.runs i).Holds lapiId → phase.Holds lapiId) : ∃ j, (Function.update w.runs i phase j).Holds lapiId := by
  obtain ⟨j,hj⟩ := h
  by_cases hij : j = i
  · subst hij
    exact ⟨j,by rw [Function.update_self]; exact hkeep hj⟩
  · exact ⟨j,by rw [Function.update_of_ne hij]; exact hj⟩

omit [DecidableEq κ] in
/-- A call that goes on, and writes nothing, holds the row as before. -/
theorem Residue.stay (h : Residue w) {i : ι} {phase : TestPhase} (hkeep : ∀ n, (w.runs i).Holds n → phase.Holds n) :
    Residue { w with runs := Function.update w.runs i phase } := by
  intro r hr hsrc
  obtain ⟨hid,hholds⟩ := h r hr hsrc
  exact ⟨hid,holds_update hholds (hkeep r.lapiId)⟩

theorem Residue.advance (h : Residue w) (i : ι) (now : Instant) : Residue (w.next (.advance i now)) := by
  rw [TestWorld.next]
  cases hphase : w.runs i with
  | idle => exact h.stay (fun n hn => by rwa [hphase] at hn)
  | begun =>
    refine h.stay (fun n hn => ?_)
    rw [hphase] at hn
    cases hn
  | finished => exact h.stay (fun n hn => by rwa [hphase] at hn)
  | orphaned lapiId => exact h.stay (fun n hn => by rwa [hphase] at hn)
  | numbered lapiId =>
    intro r hr hsrc
    rcases mem_insertSynthDecision hr with ⟨hold,hkey⟩ | ⟨hid,hlapi⟩
    · exact absurd (Prod.ext hsrc (h r hold hsrc).1) hkey
    · exact ⟨hid,i,by simpa [advanceTest, TestPhase.Holds] using hlapi.symm⟩
  | inserted lapiId =>
    intro r hr hsrc
    obtain ⟨q,hq,hkey,hlapi⟩ := mem_softDeleteSynth hr
    obtain ⟨hid,hholds⟩ := h q hq ((congrArg Prod.fst hkey).symm.trans hsrc)
    rw [hlapi]
    refine ⟨(congrArg Prod.snd hkey).trans hid,holds_update hholds ?_⟩
    rw [hphase]
    exact id
  | ending lapiId =>
    intro r hr hsrc
    obtain ⟨hold,hnot⟩ := KeyedTable.mem_remove.mp hr
    obtain ⟨hid,hholds⟩ := h r hold hsrc
    refine ⟨hid,holds_update hholds (fun hn => ?_)⟩
    rw [hphase] at hn
    exact absurd ⟨hsrc,hn.symm⟩ (of_decide_eq_false hnot)

theorem Residue.next (h : Residue w) (hnames : ∀ k, (w.pulls k).name ≠ SYNTH_ORIGIN) (a : TestAct ι κ) : Residue (w.next a) := by
  cases a with
  | begin i =>
    refine h.stay (fun n hn => ?_)
    split
    · rename_i hidle
      rw [hidle] at hn
      cases hn
    · exact hn
  | advance i now => exact h.advance i now
  | leave i =>
    refine h.stay (fun n hn => ?_)
    cases hphase : w.runs i <;> rw [hphase] at hn
    case inserted lapiId => exact hn
    case ending lapiId => exact hn
    case orphaned lapiId => exact hn
    all_goals cases hn
  | pull k name now answer => exact h
  | statement k =>
    intro r hr hsrc
    have hrows : rowsOf (· = SYNTH_ORIGIN) (advanceOps w.db (w.pulls k).name (w.pulls k).ops).1 = rowsOf (· = SYNTH_ORIGIN) w.db :=
      rowsOf_advanceOps (w.pulls k).owned (decide_eq_false (hnames k))
    have hmem : r ∈ rowsOf (· = SYNTH_ORIGIN) w.db := hrows ▸ List.mem_filter.mpr ⟨hr,decide_eq_true hsrc⟩
    exact h r (List.mem_filter.mp hmem).1 hsrc

theorem names_next (hnames : ∀ k, (w.pulls k).name ≠ SYNTH_ORIGIN) (ha : a.pulled ≠ some SYNTH_ORIGIN) (k : κ) :
    ((w.next a).pulls k).name ≠ SYNTH_ORIGIN := by
  cases a with
  | begin i => exact hnames k
  | advance i now => exact hnames k
  | leave i => exact hnames k
  | pull j name now answer =>
    by_cases hk : k = j
    · have hname : name ≠ SYNTH_ORIGIN := fun he => ha (congrArg some he)
      simpa [TestWorld.next, Pull.start, hk] using hname
    · simpa [TestWorld.next, hk] using hnames k
  | statement j =>
    by_cases hk : k = j
    · subst hk
      simpa [TestWorld.next, Pull.rest] using hnames k
    · simpa [TestWorld.next, hk] using hnames k

theorem residue_of_run {db : Db} (hclean : ∀ r ∈ db.decisions.rows, r.originSource ≠ SYNTH_ORIGIN) (actions : List (TestAct ι κ))
    (hnames : ∀ a ∈ actions, a.pulled ≠ some SYNTH_ORIGIN) : Residue (actions.foldl TestWorld.next (.start db)) := by
  have hstart : Residue (TestWorld.start db : TestWorld ι κ) ∧ ∀ k, ((TestWorld.start db : TestWorld ι κ).pulls k).name ≠ SYNTH_ORIGIN :=
    ⟨fun r hr hsrc => absurd hsrc (hclean r hr),fun k => (by decide : "local" ≠ SYNTH_ORIGIN)⟩
  exact (List.foldlRecOn (motive := fun w => Residue w ∧ ∀ k, (w.pulls k).name ≠ SYNTH_ORIGIN) actions TestWorld.next hstart
    (fun w hw a ha => ⟨hw.1.next hw.2 a,names_next hw.2 (hnames a ha)⟩)).1

/-- Whatever the order of the statements and wherever the calls leave, the other rows are those of the pulls alone, but for
the numbers that the table gives. Once the calls are over, a row of the self-tests is left only by a purge that raised. -/
theorem self_tests_leave_no_row {db : Db} (hclean : ∀ r ∈ db.decisions.rows, r.originSource ≠ SYNTH_ORIGIN)
    (actions : List (TestAct ι κ)) :
    others (actions.foldl TestWorld.next (.start db)).db = others ((actions.filter TestAct.isPull).foldl TestWorld.next (.start db)).db ∧
    ((∀ a ∈ actions, a.pulled ≠ some SYNTH_ORIGIN) → (∀ i, ((actions.foldl TestWorld.next (.start db)).runs i).ended = true) →
      ∀ r ∈ (actions.foldl TestWorld.next (.start db)).db.decisions.rows, r.originSource = SYNTH_ORIGIN →
        ∃ i, (actions.foldl TestWorld.next (.start db)).runs i = .orphaned r.lapiId) := by
  refine ⟨others_of_pulls db actions,fun hnames hover r hr hsrc => ?_⟩
  obtain ⟨i,hi⟩ := (residue_of_run hclean actions hnames r hr hsrc).2
  refine ⟨i,?_⟩
  have hend := hover i
  cases hphase : (actions.foldl TestWorld.next (.start db)).runs i <;> rw [hphase] at hi hend
  case orphaned lapiId => rw [show lapiId = r.lapiId from hi]
  case inserted lapiId => cases hend
  case ending lapiId => cases hend
  all_goals cases hi

end

def firstBan : PullAnswer := .delta [⟨7,"203.0.113.9","Ip","ban","ssh","","",none⟩] []

/-- Two calls read the same number and write the same row, a pull runs between their statements, and one of them raises. -/
def overlapping : List (TestAct Bool Unit) :=
  [.begin false,.advance false 0,.begin true,.advance true 0,.advance false 0,.pull () "local" "" firstBan,.advance true 0,.statement (),
    .advance true 0,.leave false,.advance true 0,.statement (),.advance false 0]

theorem self_tests_leave_no_row_example :
    rowsOf (· = SYNTH_ORIGIN) (overlapping.foldl TestWorld.next (.start Db.empty)).db = [] ∧
      (others (overlapping.foldl TestWorld.next (.start Db.empty)).db).map DecisionRow.value = ["203.0.113.9"] := by
  have hclean : ∀ r ∈ Db.empty.decisions.rows, r.originSource ≠ SYNTH_ORIGIN := by simp [Db.empty, KeyedTable.empty]
  have hfinished : ∀ i, (overlapping.foldl TestWorld.next (.start Db.empty)).runs i = .finished := by decide +kernel
  obtain ⟨hothers,hnone⟩ := self_tests_leave_no_row hclean overlapping
  constructor
  · refine List.filter_eq_nil_iff.mpr (fun r hr hsrc => ?_)
    obtain ⟨i,hi⟩ := hnone (by decide +kernel) (fun i => by rw [hfinished i]; rfl) r hr (of_decide_eq_true hsrc)
    rw [hfinished i] at hi
    cases hi
  · rw [hothers]
    decide +kernel

/-- A row that comes while the row of a test stands gets another number than it would get without; a purge that raises leaves
the row of its test; and a source may bear the name of the origin. -/
theorem test_row_shifts_the_numbers :
    (¬ ∀ actions : List (TestAct (Fin 1) Unit), (∀ a ∈ actions, a.pulled ≠ some SYNTH_ORIGIN) →
      (∀ i, (actions.foldl TestWorld.next (.start Db.empty)).runs i = .finished) →
      rowsOf (· ≠ SYNTH_ORIGIN) (actions.foldl TestWorld.next (.start Db.empty)).db =
        rowsOf (· ≠ SYNTH_ORIGIN) ((actions.filter TestAct.isPull).foldl TestWorld.next (.start Db.empty)).db) ∧
    (∃ actions : List (TestAct (Fin 1) Unit), (∀ a ∈ actions, a.pulled = none) ∧
      (∀ i, ((actions.foldl TestWorld.next (.start Db.empty)).runs i).ended = true) ∧
      ∃ r ∈ (actions.foldl TestWorld.next (.start Db.empty)).db.decisions.rows, r.originSource = SYNTH_ORIGIN) ∧
    ∃ actions : List (TestAct (Fin 1) Unit), (∀ i, (actions.foldl TestWorld.next (.start Db.empty)).runs i = .finished) ∧
      ∃ r ∈ (actions.foldl TestWorld.next (.start Db.empty)).db.decisions.rows, r.originSource = SYNTH_ORIGIN := by
  refine ⟨fun hall => ?_,?_,?_⟩
  · have hrows := hall [.begin 0,.advance 0 0,.advance 0 0,.pull () "local" "" firstBan,.statement (),.leave 0,.advance 0 0]
      (by decide +kernel) (by decide +kernel)
    have hids := congrArg (List.map DecisionRow.id) hrows
    revert hids
    decide +kernel
  · exact ⟨[.begin 0,.advance 0 0,.advance 0 0,.leave 0,.leave 0],by decide +kernel,by decide +kernel,by decide +kernel⟩
  · exact ⟨[.begin 0,.leave 0,.pull () SYNTH_ORIGIN "" firstBan,.statement ()],by decide +kernel,by decide +kernel⟩

end Protek.Targets
