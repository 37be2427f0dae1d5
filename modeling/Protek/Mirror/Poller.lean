import Protek.Foundation.Trace
import Protek.Mirror.Apply

/-! # The poller on one source

A run interleaves LAPI's own changes with calls of `_pull_source`. A pull is a
full one until one has completed, and an incremental one after that; it may fail
at any point, and each point leaves LAPI's cursor, the table and the flag in a
different position.
-/
namespace Protek.Mirror
open Foundation Foundation.Clock Protek.Store

structure World where
  db : Db
  lapi : Lapi
  bootstrapDone : Bool

/-- Where a pull fails: before LAPI answers, with the answer lost on its way,
after some statements, or while the pull is recorded. -/
inductive Fault
  | beforeResponse
  | responseLost
  | applying (done : ℕ)
  | recording
  deriving DecidableEq, Repr

/-- What LAPI answers; a full pull reads the first two lists, an incremental one the others. -/
structure Answer where
  ip : List LapiDecision := []
  range : List LapiDecision := []
  new : List LapiDecision := []
  deleted : List LapiDecision := []

inductive Event
  | add (d : LapiDecision)
  | remove (id : ℤ)
  | pull (now : Instant) (answer : Answer) (fault : Option Fault)

/-- The statements that a pull gets through. -/
def executed (fault : Option Fault) (stmts : List Stmt) : List Stmt :=
  match fault with
  | none => stmts
  | some .recording => stmts
  | some (.applying done) => stmts.take done
  | some .responseLost => []
  | some .beforeResponse => []

/-- `_bootstrap_done` is set right after `_bootstrap` returns, before the pull is recorded. -/
def bootstrapReturns (fault : Option Fault) : Bool := fault = none ∨ fault = some .recording

def bootstrapOf (name : String) (now : Instant) (a : Answer) (db : Db) : List Stmt :=
  bootstrapStmts name (a.ip ++ a.range) (isoformat now) db

def streamOf (name : String) (now : Instant) (a : Answer) : List Stmt :=
  streamStmts name a.new a.deleted (isoformat now)

/-- LAPI moves the cursor when it serves the stream; a full pull may leave it where it is. -/
inductive Step (name : String) : World → Event → World → Prop
  | add {w : World} {d : LapiDecision} (h : w.lapi.Unused d) :
      Step name w (.add d) { w with lapi := w.lapi.add d h }
  | remove {w : World} {i : ℤ} : Step name w (.remove i) { w with lapi := w.lapi.retire i }
  | bootstrap {w : World} {now : Instant} {a : Answer} {f : Option Fault} {lapi : Lapi}
      (hflag : w.bootstrapDone = false) (hip : Lapi.ServesDecisions w.lapi "Ip" "ban" a.ip)
      (hrange : Lapi.ServesDecisions w.lapi "Range" "ban" a.range) (hl : lapi = w.lapi ∨ lapi = w.lapi.advance) :
      Step name w (.pull now a f)
        ⟨execAll w.db (executed f (bootstrapOf name now a w.db)),lapi,bootstrapReturns f⟩
  | stream {w : World} {now : Instant} {a : Answer} {f : Option Fault}
      (hflag : w.bootstrapDone = true) (hs : Lapi.ServesStream w.lapi a.new a.deleted) :
      Step name w (.pull now a f)
        ⟨execAll w.db (executed f (streamOf name now a)),
          if f = some .beforeResponse then w.lapi else w.lapi.advance,true⟩

/-- A poller process just started, with whatever an earlier one left in the database. -/
def start (db : Db) : World := ⟨db,Feed.empty,false⟩

/-- An identity has an active row of the source exactly when LAPI holds a decision
of it that a full pull would list. -/
def Faithful (name : String) (w : World) : Prop :=
  ∀ k : Identity, (∃ r ∈ w.db.activeRows, r.originSource = name ∧ r.identity = k) ↔
    ∃ d ∈ w.lapi.active, d.listed = true ∧ d.identity = k

abbrev Listed (d : LapiDecision) : Prop := d.listed = true

abbrev InScope (d : LapiDecision) : Prop := d.inScope = true

theorem inScope_of_listed {d : LapiDecision} (h : Listed d) : InScope d := by
  simp only [Listed, LapiDecision.listed, decide_eq_true_eq] at h
  exact h.1

theorem listed_iff {d : LapiDecision} (h : d.type = "ban") : Listed d ↔ InScope d := by
  simp [Listed, LapiDecision.listed, h]

theorem faithful_iff {name : String} {w : World} :
    Faithful name w ↔ decisionShape.Faithful w.lapi Listed (activeView w.db name) := by
  have hkey : ∀ k : Identity, (∃ d ∈ w.lapi.active, d.listed = true ∧ d.identity = k) ↔
      ∃ d ∈ w.lapi.active, Listed d ∧ decisionShape.key d = k := by
    intro k
    refine exists_congr (fun d => and_congr_right (fun _ => and_congr_right (fun hl => ?_)))
    rw [show decisionShape.key d = d.identity from recordedKey_of_inScope (inScope_of_listed hl)]
  exact forall_congr' (fun k => iff_congr activeView_isSome.symm (hkey k))

/-- The view after a full pull that completes. -/
theorem view_bootstrap (name : String) (now : Instant) (a : Answer) (db : Db) :
    activeView (execAll db (bootstrapOf name now a db)) name = decisionShape.load (a.ip ++ a.range) :=
  activeView_bootstrap db name _ _

theorem view_stream (name : String) (now : Instant) (a : Answer) (db : Db) :
    activeView (execAll db (streamOf name now a)) name = decisionShape.replay (activeView db name) a.new a.deleted :=
  activeView_stream db name _ _ _

theorem delta_inScope {lapi : Lapi} {a : Answer} (h : Lapi.ServesStream lapi a.new a.deleted) :
    Shape.Delta (S := decisionShape) lapi InScope a.new a.deleted where
  mem_new d := h.mem_new d
  gone_sub g hg := ((h.mem_deleted g).mp hg).1
  gone_all g hg hs := (h.mem_deleted g).mpr ⟨hg,hs⟩

/-- As long as only bans come, the stream delivers what a full pull would list. -/
theorem delta_listed {lapi : Lapi} {a : Answer} (h : Lapi.ServesStream lapi a.new a.deleted)
    (hban : ∀ d ∈ a.new, d.type = "ban") : Shape.Delta (S := decisionShape) lapi Listed a.new a.deleted where
  mem_new d := by
    constructor
    · intro hd
      obtain ⟨ha,hp,hs⟩ := (h.mem_new d).mp hd
      exact ⟨ha,hp,(listed_iff (hban d hd)).mpr hs⟩
    · rintro ⟨ha,hp,hl⟩
      exact (h.mem_new d).mpr ⟨ha,hp,inScope_of_listed hl⟩
  gone_sub g hg := ((h.mem_deleted g).mp hg).1
  gone_all g hg hl := (h.mem_deleted g).mpr ⟨hg,inScope_of_listed hl⟩

end Protek.Mirror
