import Protek.Federation.Sources
import Protek.Mirror.Fidelity
import Protek.Policy.Desired

/-! # Ticks over all sources

Each tick of the poller lists the sources to pull and then pulls them one by one, in
any order; the administration of sources and LAPI's own changes happen in between, in
other processes. The bootstrap flags are the poller's, by name.
-/
namespace Protek.Federation
open Foundation Foundation.PyText Foundation.Clock Protek.Store Protek.Mirror Protek.Policy

inductive AdminOp
  | add (name url apiKey : String) (confidence : ℤ) (now : Instant)
  | delete (id : ℕ)
  | setPaused (id : ℕ) (paused : Bool)
  | setEnabled (id : ℕ) (enabled : Bool)
  | reseedLocal (url key : String)

/-- A request that is refused leaves the table as it was. -/
def Sources.perform (s : Sources) : AdminOp → Sources
  | .add name url apiKey confidence now =>
    match s.addSource name url apiKey confidence now with
    | .ok (_,s') => s'
    | .error _ => s
  | .delete id =>
    match s.deleteSource id with
    | .ok s' => s'
    | .error _ => s
  | .setPaused id paused => s.setPaused id paused
  | .setEnabled id enabled => s.setEnabled id enabled
  | .reseedLocal url key => s.reseedLocal url key

structure World where
  db : Db
  sources : Sources
  lapis : String × String → Lapi
  bootstrapDone : String → Bool
  failStreak : String → ℕ
  todo : List SourceRow

inductive Event
  | lapiAdd (endpoint : String × String) (d : LapiDecision)
  | lapiRemove (endpoint : String × String) (id : ℤ)
  | admin (op : AdminOp)
  | tick (now : Instant) (connectionChanged : Bool)
  | pull (src : SourceRow) (now : Instant) (answer : Answer) (fault : Option Fault)
  | cycle (now : Instant)

def minute : ℕ := 60 * second

/-- The backoff after the `streak`-th failure in a row. -/
def backoff (streak : ℕ) : ℕ := min 30 (2 ^ (streak - 1)) * minute

/-- What `_pull_source` writes to the sources table. LAPI's failures are LAPIError, the
others reach the last `except`, whose own `record_pull` may fail as well. -/
inductive Recorded (s : Sources) (id count : ℕ) (now : Instant) (streak : ℕ) : Option Fault → Sources → Prop
  | success (ms : ℕ) : Recorded s id count now streak none ((s.recordPull id count "" ms now).setBackoff id none)
  | lapiError {f : Fault} (hf : f = .beforeResponse ∨ f = .responseLost) (error : String) (ms : ℕ) :
      Recorded s id count now streak (some f)
        ((s.recordPull id 0 error ms now).setBackoff id (some (now + backoff (streak + 1))))
  | crash {f : Fault} (hf : f = .recording ∨ ∃ done, f = .applying done) (error : String) (ms : ℕ) :
      Recorded s id count now streak (some f) (s.recordPull id 0 error ms now)
  | unrecorded {f : Fault} (hf : f = .recording ∨ ∃ done, f = .applying done) : Recorded s id count now streak (some f) s

/-- What `_bootstrap` or `_stream_apply` returns. -/
def pulledCount (bootstrapDone : Bool) (a : Answer) : ℕ :=
  if bootstrapDone then a.new.length + a.deleted.length else (a.ip ++ a.range).length

def streakAfter (streak : ℕ) : Option Fault → ℕ
  | none => 0
  | some .beforeResponse => streak + 1
  | some .responseLost => streak + 1
  | some _ => streak

/-- One source as its pull sees it. -/
def World.view (w : World) (src : SourceRow) : Mirror.World :=
  ⟨w.db,w.lapis src.endpoint,w.bootstrapDone src.name⟩

def World.afterPull (w : World) (src : SourceRow) (f : Option Fault) (v : Mirror.World) (s : Sources) : World where
  db := v.db
  sources := s
  lapis := Function.update w.lapis src.endpoint v.lapi
  bootstrapDone := Function.update w.bootstrapDone src.name v.bootstrapDone
  failStreak := Function.update w.failStreak src.name (streakAfter (w.failStreak src.name) f)
  todo := w.todo.erase src

/-- `_sync_connection` and the listing at the start of a tick. -/
def World.tick (w : World) (now : Instant) (connectionChanged : Bool) : World :=
  { w with
    bootstrapDone := if connectionChanged then Function.update w.bootstrapDone "local" false else w.bootstrapDone
    failStreak := if connectionChanged then Function.update w.failStreak "local" 0 else w.failStreak
    todo := w.sources.active now }

/-- A reconcile cycle may also start from the web, between two pulls. -/
inductive Step (U : CaseMap) (T : CharTable) : World → Event → World → Prop
  | lapiAdd {w : World} {p : String × String} {d : LapiDecision} (h : (w.lapis p).Unused d) :
      Step U T w (.lapiAdd p d) { w with lapis := Function.update w.lapis p ((w.lapis p).add d h) }
  | lapiRemove {w : World} {p : String × String} {i : ℤ} :
      Step U T w (.lapiRemove p i) { w with lapis := Function.update w.lapis p ((w.lapis p).retire i) }
  | admin {w : World} {op : AdminOp} : Step U T w (.admin op) { w with sources := w.sources.perform op }
  | tick {w : World} {now : Instant} {connectionChanged : Bool} (h : w.todo = []) :
      Step U T w (.tick now connectionChanged) (w.tick now connectionChanged)
  | pull {w : World} {src : SourceRow} {now : Instant} {a : Answer} {f : Option Fault} {v : Mirror.World} {s : Sources}
      (hsrc : src ∈ w.todo) (hpull : Mirror.Step src.name (w.view src) (.pull now a f) v)
      (hrec : Recorded w.sources src.id (pulledCount (w.bootstrapDone src.name) a) now (w.failStreak src.name) f s) :
      Step U T w (.pull src now a f) (w.afterPull src f v s)
  | cycle {w : World} {now : Instant} : Step U T w (.cycle now) { w with db := (desiredFromDb U T w.db now).2 }

/-- A poller process just started. -/
def World.Fresh (w : World) : Prop := (∀ name, w.bootstrapDone name = false) ∧ w.todo = []

/-- No source is called `name`, so that adding one succeeds. -/
def World.Free (w : World) (name : String) : Prop := name ∉ w.sources.rows.map SourceRow.name

/-- No pull of a source of this name is outstanding. -/
def World.Settled (w : World) (name : String) : Prop := ∀ src ∈ w.todo, src.name ≠ name

section
variable {s s' : Sources} {id count : ℕ} {now : Instant} {streak : ℕ}

theorem Recorded.descends {f : Option Fault} (h : Recorded s id count now streak f s') : Sources.Descends s s' := by
  cases h with
  | success ms =>
    exact (s.descends_recordPull id count "" ms now).trans (Sources.descends_setBackoff _ id _)
  | lapiError hf error ms =>
    exact (s.descends_recordPull id 0 error ms now).trans (Sources.descends_setBackoff _ id _)
  | crash hf error ms => exact s.descends_recordPull id 0 error ms now
  | unrecorded hf => exact Sources.Descends.refl s

theorem Recorded.pulled (h : Recorded s id count now streak none s') :
    ∀ r ∈ s'.rows, r.id = id → r.lastPullAt ≠ none := by
  cases h with
  | success ms =>
    intro r hr hid hnone
    obtain ⟨q,hq,hqid,_,hpull⟩ := (s.recordPull id count "" ms now).descends_setBackoff id none r hr
    exact Sources.recordPull_pulled hq (hqid.trans hid) (hpull hnone)

/-- Only a successful `add` brings a row that was not there. -/
theorem Sources.perform_descends (op : AdminOp) (h : ∀ name url apiKey confidence now, op = .add name url apiKey confidence now →
    name ∈ s.rows.map SourceRow.name) : Sources.Descends s (s.perform op) := by
  cases op with
  | add name url apiKey confidence now =>
    simp only [perform, addSource, dif_pos (h name url apiKey confidence now rfl)]
    exact Descends.refl s
  | delete id =>
    simp only [perform]
    split
    · next hd =>
      rw [deleteSource_ok hd]
      exact s.descends_remove id
    · exact Descends.refl s
  | setPaused id paused =>
    unfold perform setPaused update
    apply descends_updateWhere
    exact fun _ h => h
  | setEnabled id enabled =>
    unfold perform setEnabled update
    apply descends_updateWhere
    exact fun _ h => h
  | reseedLocal url key =>
    unfold perform reseedLocal
    apply descends_updateWhere
    exact fun _ h => h

theorem Sources.mem_perform {op : AdminOp} {r : SourceRow} (hr : r ∈ (s.perform op).rows) :
    (∃ q ∈ s.rows, q.id = r.id ∧ q.name = r.name ∧ (r.lastPullAt = none → q.lastPullAt = none)) ∨
    ∃ name url apiKey confidence now, op = .add name url apiKey confidence now ∧ name ∉ s.rows.map SourceRow.name ∧
      r.name = name := by
  by_cases hadd : ∃ name url apiKey confidence now, op = .add name url apiKey confidence now ∧
      name ∉ s.rows.map SourceRow.name
  · obtain ⟨name,url,apiKey,confidence,now,rfl,hno⟩ := hadd
    simp only [perform, addSource, dif_neg hno] at hr
    rcases List.mem_append.mp hr with hr | hr
    · exact Or.inl ⟨r,hr,rfl,rfl,fun h => h⟩
    · rw [List.mem_singleton.mp hr]
      exact Or.inr ⟨name,url,apiKey,confidence,now,rfl,hno,rfl⟩
  · refine Or.inl (perform_descends op ?_ r hr)
    intro name url apiKey confidence now hop
    by_contra hno
    exact hadd ⟨name,url,apiKey,confidence,now,hop,hno⟩

end

theorem mem_of_mem_executed {f : Option Fault} {stmts : List Stmt} {st : Stmt} (hst : st ∈ executed f stmts) : st ∈ stmts := by
  unfold executed at hst
  split at hst
  · exact hst
  · exact hst
  · exact List.mem_of_mem_take hst
  · cases hst
  · cases hst

/-- A pull changes no row of another source. -/
theorem find_pull {name other : String} {w w' : Mirror.World} {now : Instant} {a : Answer} {f : Option Fault}
    (h : Mirror.Step name w (.pull now a f) w') (hne : name ≠ other) (k : Identity) :
    w'.db.decisions.find (other,k) = w.db.decisions.find (other,k) := by
  cases h with
  | bootstrap _ _ _ _ =>
    refine find_execAll_of_ne (fun st hst => ?_) k
    rw [source_bootstrapStmts st (mem_of_mem_executed hst)]
    exact hne
  | stream _ _ =>
    refine find_execAll_of_ne (fun st hst => ?_) k
    rw [source_streamStmts st (mem_of_mem_executed hst)]
    exact hne

end Protek.Federation
