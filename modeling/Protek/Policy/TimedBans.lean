import Protek.Foundation.Trace
import Protek.Mirror.Apply
import Protek.Policy.Writers

/-! # Do timed bans end

Runs of Protek's own writers, pulls of LAPI sources, sweeps, extensions and cycles.
No step of such a run lifts a ban that Protek wrote, and the cycle does not read
`until`: a ban past its end leaves the list only where another rule withholds it.
-/
namespace Protek.Policy
open Foundation Foundation.PyText Foundation.Clock Protek.Store Protek.Mirror

inductive Op
  | externalDecisions (token : Option Token) (body : ExternalBody)
  | asnDecide (escalationId : ℕ) (decision decidedBy note : String)
  | bootstrap (name : String) (decisions : List LapiDecision)
  | streamApply (name : String) (new deleted : List LapiDecision)
  | prune (rounds : ℕ)
  | bulkExtend (ips hours : Option String)
  | cycle

structure Event where
  now : Instant
  op : Op

section
variable (U : CaseMap) (T : CharTable)

/-- A request that is refused leaves the database as it was. -/
def perform (db : Db) (e : Event) : Db :=
  match e.op with
  | .externalDecisions token body =>
    match externalDecisions T db token body e.now with
    | .ok (_,db') => db'
    | .error _ => db
  | .asnDecide id decision decidedBy note =>
    match asnDecide db id decision decidedBy note e.now with
    | .ok (_,db') => db'
    | .error _ => db
  | .bootstrap name decisions => execAll db (bootstrapStmts name decisions (isoformat e.now) db)
  | .streamApply name new deleted => execAll db (streamStmts name new deleted (isoformat e.now))
  | .prune rounds => prune T db rounds
  | .bulkExtend ips hours => bulkExtend T db ips hours e.now
  | .cycle => (desiredFromDb U T db e.now).2

/-- The names under which Protek writes its own bans. -/
def ownSource (name : String) : Bool := name = "asn_detector" ∨ startsWith name "external:"

def Op.pulledSource : Op → Option String
  | .bootstrap name _ => some name
  | .streamApply name _ _ => some name
  | _ => none

/-- LAPI sources do not use Protek's own names. -/
def Step (db : Db) (e : Event) (db' : Db) : Prop :=
  db' = perform U T db e ∧ ∀ name, e.op.pulledSource = some name → ownSource name = false

end

/-- The row's `until` is an instant before `now`, in Python's or in LAPI's format. -/
def Overdue (now : Instant) (r : DecisionRow) : Prop :=
  ∃ u, u < now ∧ (r.untilAt = some (isoformat u) ∨ r.untilAt = some (rfc3339 u))

def AllOverdue (db : Db) (now : Instant) (v : String) : Prop := ∀ r ∈ db.activeRows, r.value = v → Overdue now r

/-- No desired value has only active rows past their `until`. -/
def BansEnd (U : CaseMap) (T : CharTable) (db : Db) (now : Instant) : Prop :=
  ∀ v, AllOverdue db now v → ∀ d ∈ (desiredFromDb U T db now).1, d.value ≠ v

/-- The values with nothing but overdue rows are withheld for want of sources, for want
of approval, or by a whitelist rule. -/
def WithheldOtherwise (U : CaseMap) (T : CharTable) (db : Db) (now : Instant) : Prop :=
  ∀ v, (∃ r ∈ db.activeRows, r.value = v) → AllOverdue db now v → Eligible T db now v →
    (whitelisted U db now v).isSome = true

section
variable {U : CaseMap} {T : CharTable} {db db' : Db} {now : Instant}

theorem bansEnd_iff : BansEnd U T db now ↔ WithheldOtherwise U T db now := by
  constructor
  · intro h v hrow hover helig
    by_contra hno
    obtain ⟨d,hd,hv⟩ := mem_desiredFromDb.mpr ⟨hrow,helig,Option.not_isSome_iff_eq_none.mp hno⟩
    exact h v hover d hd hv
  · rintro h v hover d hd rfl
    obtain ⟨hrow,helig,hnone⟩ := mem_desiredFromDb.mp ⟨d,hd,rfl⟩
    have hsome := h d.value hrow hover helig
    rw [hnone] at hsome
    cases hsome

/-- What a step can do to a row under one of Protek's own names. -/
theorem Step.rowChange {e : Event} {name : String} (h : Step U T db e db') (hown : ownSource name = true) (k : Identity) :
    RowChange (db.decisions.find (name,k)) (db'.decisions.find (name,k)) := by
  obtain ⟨rfl,hlapi⟩ := h
  rcases e with ⟨now,op⟩
  have hother : ∀ src, op.pulledSource = some src → src ≠ name := by
    rintro src hsrc rfl
    have := hlapi src hsrc
    rw [hown] at this
    cases this
  cases op with
  | externalDecisions token body =>
    simp only [perform]
    split
    · next h => exact rowChange_externalDecisions h
    · exact .kept rfl
  | asnDecide id decision decidedBy note =>
    simp only [perform]
    split
    · next h => exact rowChange_asnDecide h
    · exact .kept rfl
  | bootstrap src decisions =>
    refine .kept (find_execAll_of_ne (fun st hst => ?_) k)
    rw [source_bootstrapStmts st hst]
    exact hother src rfl
  | streamApply src new deleted =>
    refine .kept (find_execAll_of_ne (fun st hst => ?_) k)
    rw [source_streamStmts st hst]
    exact hother src rfl
  | prune rounds => exact rowChange_prune
  | bulkExtend ips hours => exact rowChange_bulkExtend
  | cycle => exact .kept (congrArg (fun t => t.find (name,k)) decisions_desiredFromDb)

/-- The bans that Protek wrote itself carry an `until`. -/
def OwnTimed (db : Db) : Prop :=
  ∀ name k r, ownSource name = true → db.decisions.find (name,k) = some r → r.untilAt.isSome = true

variable {ts : List (Transition Db Event)}

theorem ownTimed_of_trace (h : Trace (Step U T) db ts db') (hdb : OwnTimed db) :
    OwnTimed db' ∧ ∀ t ∈ ts, OwnTimed t.before ∧ OwnTimed t.after :=
  h.always (I := OwnTimed) hdb (fun _ hs ht name k r hown => (hs.rowChange hown k).timed (fun r => ht name k r hown) r)

/-- Once Protek has written a ban, no step lifts it. -/
theorem banned_of_trace (h : Trace (Step U T) db ts db') {name : String} {k : Identity} (hown : ownSource name = true)
    (hb : Banned db (name,k)) : Banned db' (name,k) :=
  (h.always (I := fun db => Banned db (name,k)) hb (fun _ hs hb => (hs.rowChange hown k).banned hb)).1

end

/-- Along a run Protek's own bans all carry an `until`, and every cycle drops the values
whose bans are past theirs exactly when something else withholds each of them. -/
theorem timed_bans_end_iff (U : CaseMap) (T : CharTable) {db s : Db} {ts : List (Transition Db Event)}
    (h : Trace (Step U T) db ts s) (hdb : OwnTimed db) :
    (∀ t ∈ ts, t.label.op = .cycle → OwnTimed t.before ∧ BansEnd U T t.before t.label.now) ↔
    ∀ t ∈ ts, t.label.op = .cycle → WithheldOtherwise U T t.before t.label.now := by
  refine forall_congr' (fun t => forall_congr' (fun ht => imp_congr_right (fun _ => ?_)))
  rw [← bansEnd_iff]
  exact and_iff_right ((ownTimed_of_trace h hdb).2 t ht).1

/-! ## A ban for an hour, two hours later -/

def hourBan : ExternalBody := { ip := some "203.0.113.9", duration := some "1h" }

def writeHourBan : Event := ⟨0,.externalDecisions (some ⟨"siem",true⟩) hourBan⟩

def cycleAfter : Event := ⟨2 * hour,.cycle⟩

def hourBanned : Db := perform .ascii .ascii Db.empty writeHourBan

def lateCycle : Transition Db Event := ⟨hourBanned,cycleAfter,perform .ascii .ascii hourBanned cycleAfter⟩

def hourBanRun : List (Transition Db Event) := [⟨Db.empty,writeHourBan,hourBanned⟩,lateCycle]

theorem hourBanRun_trace : Trace (Step .ascii .ascii) Db.empty hourBanRun lateCycle.after := by
  refine (Trace.nil.snoc ⟨rfl,fun name hn => ?_⟩).snoc ⟨rfl,fun name hn => ?_⟩
  · cases hn
  · cases hn

theorem ownTimed_empty : OwnTimed Db.empty := by
  intro name k r _ hr
  cases hr

theorem timed_bans_end_hour :
    (∀ t ∈ hourBanRun, t.label.op = .cycle → OwnTimed t.before ∧ BansEnd .ascii .ascii t.before t.label.now) ↔
    ∀ t ∈ hourBanRun, t.label.op = .cycle → WithheldOtherwise .ascii .ascii t.before t.label.now :=
  timed_bans_end_iff .ascii .ascii hourBanRun_trace ownTimed_empty

theorem hourBanned_overdue : AllOverdue hourBanned cycleAfter.now "203.0.113.9/32" := by
  have huntil : ∀ r ∈ hourBanned.activeRows, r.untilAt = some (isoformat hour) := by decide
  exact fun r hr _ => ⟨hour,by decide,Or.inl (huntil r hr)⟩

/-- The ban is still listed an hour after its end. -/
theorem hour_ban_outlives_until :
    ¬ ∀ (U : CaseMap) (T : CharTable) (s : Db) (ts : List (Transition Db Event)), Trace (Step U T) Db.empty ts s →
      ∀ t ∈ ts, t.label.op = .cycle → BansEnd U T t.before t.label.now := by
  intro h
  have hlist : (desiredFromDb .ascii .ascii hourBanned cycleAfter.now).1 =
      [⟨"203.0.113.9/32","Ip","external/manual","external","external:siem",0⟩] := by decide
  have hlate : lateCycle ∈ hourBanRun := List.mem_cons_of_mem _ (List.mem_singleton_self _)
  have hends : BansEnd .ascii .ascii hourBanned cycleAfter.now := h .ascii .ascii _ _ hourBanRun_trace lateCycle hlate rfl
  refine hends "203.0.113.9/32" hourBanned_overdue ⟨"203.0.113.9/32","Ip","external/manual","external","external:siem",0⟩ ?_ rfl
  rw [hlist]
  exact List.mem_singleton_self _

end Protek.Policy
