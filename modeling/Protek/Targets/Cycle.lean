import Protek.Diff.Router
import Protek.Targets.Filters

/-! # One reconcile cycle over all targets

`run_once` computes the desired list once, hands it to a worker for each target, folds
what the workers return into totals, and writes one `sync_events` row. Each call to an
adapter may raise; a target is given by what its calls do in this cycle.
-/
namespace Protek.Targets
open Foundation Foundation.PyText Foundation.Clock Protek.Store Protek.Policy Protek.Diff

/-- The columns of `bouncer_targets` that a cycle reads. -/
structure TargetRow where
  name : String
  kind : String
  enabled : Bool
  dryRun : ℤ
  deriving DecidableEq, Repr

abbrev TargetTable := KeyedTable String TargetRow TargetRow.name

/-- A bouncer object, with what its calls return or raise, in the order the cycle makes them. -/
structure Target where
  name : String
  kind : String
  filters : TargetFilters := {}
  isConfigured : Except String Bool
  snapshot : Except String (List Entry)
  isConfiguredAgain : Except String Bool
  apply : List (String × String) → List String → Except String ApplyResult
  snapshotMs : ℕ := 0
  diffMs : ℕ := 0
  applyMs : ℕ := 0

structure ApplyCall where
  target : String
  toAdd : List (String × String)
  toRemoveIds : List String
  deriving DecidableEq, Repr

/-- The dict that a worker returns. -/
structure TargetResult where
  name : String
  kind : String
  snapshotMs : ℕ := 0
  diffMs : ℕ := 0
  applyMs : ℕ := 0
  toAddN : ℕ := 0
  toRemoveN : ℕ := 0
  unchangedN : ℕ := 0
  snapshotN : ℕ := 0
  snapshotOk : Bool := false
  errors : ℕ := 0
  notes : List String := []
  pushLog : List PushEntry := []
  ok : Bool := true
  deriving DecidableEq, Repr

def TargetResult.note (out : TargetResult) (text : String) : TargetResult := { out with notes := out.notes ++ [text] }

def TargetResult.fail (out : TargetResult) (text : String) : TargetResult :=
  { out with errors := out.errors + 1, ok := false, notes := out.notes ++ [text] }

/-- What a worker hands back, and the call to `apply` it made. -/
structure Future where
  result : Except String TargetResult
  call : Option ApplyCall

/-- The router of `.env` follows the cycle alone; an unknown name counts as live. -/
def bouncerIsDry (table : TargetTable) (b : Target) : Bool :=
  if b.kind = "mikrotik_env" then false
  else if b.name = "" then false
  else match table.find b.name with
    | none => false
    | some row => row.dryRun ≠ 0

def decisionOf (d : DesiredRow) : Decision where
  value := some d.value
  scope := some d.scope
  scenario := some d.scenario
  origin := some d.origin
  originSource := some d.originSource
  lapiId := some (.int d.lapiId)

namespace Target

/-- The first `try` of the worker. -/
def readSnapshot (b : Target) : List Entry × TargetResult :=
  let out : TargetResult := { name := b.name, kind := b.kind, snapshotMs := b.snapshotMs }
  match b.isConfigured with
  | .error e => ([],out.fail (b.name ++ "_snapshot_failed: " ++ e))
  | .ok false => ([],out)
  | .ok true =>
    match b.snapshot with
    | .error e => ([],out.fail (b.name ++ "_snapshot_failed: " ++ e))
    | .ok current => (current,{ out with snapshotOk := true, snapshotN := current.length })

/-- The call to `apply`, with the result it leaves. -/
def push (b : Target) (diff : ReconcileDiff) (batchCap : ℕ) (out : TargetResult) : TargetResult × ApplyCall :=
  let toAdd := diff.toAdd.take batchCap
  let toRemove := diff.toRemove.take batchCap
  let out := { out with applyMs := b.applyMs }
  let call : ApplyCall := ⟨b.name,toAdd,toRemove⟩
  match b.apply toAdd toRemove with
  | .ok res => ({ out with errors := out.errors + res.errors, pushLog := res.pushLog },call)
  | .error e => (out.fail (b.name ++ "_apply_failed: " ++ e),call)

end Target

section
variable (U : CaseMap) (T : CharTable) (compile : Compile) (reputation : BulkComputeForMin)

/-- `_run_one_bouncer`. The second `is_configured()` stands outside any `try`. -/
def runOneBouncer (table : TargetTable) (desired : List DesiredRow) (dryRun : Bool) (batchCap : ℕ) (b : Target) : Future :=
  let (current,out) := b.readSnapshot
  let desiredForB := filterDesiredForBouncer compile reputation b.filters desired
  let out := if desiredForB.length < desired.length then
      out.note (b.name ++ "_filtered: " ++ toString desiredForB.length ++ "/" ++ toString desired.length)
    else out
  let diff := reconcile U (desiredForB.map decisionOf) current
  let out : TargetResult := { out with
    diffMs := b.diffMs
    toAddN := diff.toAdd.length
    toRemoveN := diff.toRemove.length
    unchangedN := diff.unchanged }
  let capped (out : TargetResult) : TargetResult :=
    if batchCap < diff.changes then out.note (b.name ++ "_batch_capped: " ++ toString batchCap) else out
  if dryRun || bouncerIsDry table b then ⟨.ok (capped out),none⟩
  else match b.isConfiguredAgain with
    | .error e => ⟨.error e,none⟩
    | .ok configured =>
      if configured && diff.changes ≠ 0 then
        let (out,call) := b.push diff batchCap out
        ⟨.ok (capped out),some call⟩
      else ⟨.ok (capped out),none⟩

end

/-! ## The cycle -/

structure SyncEvent where
  id : ℕ
  startedAt : String
  durationMs : ℕ
  added : ℕ
  removed : ℕ
  unchanged : ℕ
  errors : ℕ
  source : String
  dryRun : Bool
  notes : String
  lapiFetchMs : ℕ
  snapshotMs : ℕ
  diffMs : ℕ
  applyMs : ℕ
  deriving DecidableEq, Repr

structure MtPush where
  syncEventId : ℕ
  ip : String
  action : String
  success : Bool
  error : String
  deriving DecidableEq, Repr

structure TargetState where
  name : String
  size : ℕ
  syncedAt : String
  deriving DecidableEq, Repr

/-- The accumulators of the loop over the futures. -/
structure Totals where
  errorCount : ℕ := 0
  noteBits : List String := []
  mtListCount : ℕ := 0
  mtCountValid : Bool := false
  targetState : KeyedTable String TargetState TargetState.name := .empty
  snapshotMs : ℕ := 0
  diffMs : ℕ := 0
  applyMs : ℕ := 0
  totalAdd : ℕ := 0
  totalRemove : ℕ := 0
  unchanged : ℕ := 0
  perBouncerPush : List (String × List PushEntry) := []

/-- One turn of the loop. A target's row of `last_error`, which marks slow targets, is left out. -/
def Totals.take (now : Instant) (acc : Totals) (p : Target × Future) : Totals :=
  match p.2.result with
  | .error e => { acc with
      errorCount := acc.errorCount + 1
      noteBits := acc.noteBits ++ [p.1.name ++ "_apply_failed: " ++ e] }
  | .ok r =>
    let counts := startsWith r.kind "mikrotik" && r.snapshotOk
    { errorCount := acc.errorCount + r.errors
      noteBits := acc.noteBits ++ r.notes
      mtListCount := if counts then acc.mtListCount + r.snapshotN else acc.mtListCount
      mtCountValid := acc.mtCountValid || counts
      targetState := if r.snapshotOk then
          acc.targetState.upsert ⟨p.1.name,r.snapshotN,isoformat now⟩
            (fun t => { t with size := r.snapshotN, syncedAt := isoformat now }) (fun _ => rfl)
        else acc.targetState
      snapshotMs := acc.snapshotMs + r.snapshotMs
      diffMs := acc.diffMs + r.diffMs
      applyMs := acc.applyMs + r.applyMs
      totalAdd := acc.totalAdd + r.toAddN
      totalRemove := acc.totalRemove + r.toRemoveN
      unchanged := acc.unchanged + r.unchangedN
      perBouncerPush := if r.pushLog = [] then acc.perBouncerPush else acc.perBouncerPush ++ [(p.1.name,r.pushLog)] }

/-- The tables that a cycle reads and writes. -/
structure CycleStore where
  db : Db
  targets : TargetTable
  syncEvents : List SyncEvent
  syncEventsSeq : ℕ
  mtPushes : List MtPush

structure CycleArgs where
  source : String
  dryRun : Bool
  batchCap : ℕ
  now : Instant
  durationMs : ℕ := 0
  lapiFetchMs : ℕ := 0
  virtualDiffMs : ℕ := 0
  deriving DecidableEq, Repr

structure CycleResult where
  syncEventId : ℕ
  startedAt : String
  durationMs : ℕ
  lapiFetchMs : ℕ
  snapshotMs : ℕ
  diffMs : ℕ
  applyMs : ℕ
  toAdd : ℕ
  toRemove : ℕ
  unchanged : ℕ
  foreignKept : ℕ := 0
  dryRun : Bool
  errors : ℕ
  notes : String
  bouncerCount : ℕ
  mtListCount : ℕ
  mtCountValid : Bool
  targets : KeyedTable String TargetState TargetState.name

inductive CycleError
  /-- `OverflowError`: the confidence threshold does not fit an SQLite integer. -/
  | thresholdOverflow
  /-- `ValueError` of `float(reconcile.per_bouncer_timeout_s)`. -/
  | badTimeout
  /-- `UnboundLocalError`: only the branch with targets binds `target_state`. -/
  | targetStateUnbound
  deriving DecidableEq, Repr

structure CycleOutcome where
  store : CycleStore
  futures : List Future
  result : Except CycleError CycleResult

def CycleOutcome.calls (o : CycleOutcome) : List ApplyCall := o.futures.filterMap Future.call

/-- The row of `sync_events` and the rows of `mt_pushes` that go with it. -/
def CycleStore.record (st : CycleStore) (args : CycleArgs) (targets : List Target) (t : Totals) : CycleStore :=
  let id := st.syncEventsSeq + 1
  { st with
    syncEvents := st.syncEvents ++ [
      { id := id
        startedAt := isoformat args.now
        durationMs := args.durationMs
        added := t.totalAdd
        removed := t.totalRemove
        unchanged := t.unchanged
        errors := t.errorCount
        source := args.source
        dryRun := args.dryRun
        notes := "; ".intercalate t.noteBits
        lapiFetchMs := args.lapiFetchMs
        snapshotMs := t.snapshotMs
        diffMs := t.diffMs
        applyMs := t.applyMs }]
    syncEventsSeq := id
    mtPushes := st.mtPushes ++
      if args.dryRun then targets.map (fun b => ⟨id,b.name,"note",true,"dry-run · " ++ b.kind⟩)
      else t.perBouncerPush.flatMap (fun pb =>
        pb.2.map (fun p => ⟨id,p.ip,p.action,p.success,pb.1 ++ " · " ++ p.error.getD ""⟩)) }

def resultOf (id : ℕ) (args : CycleArgs) (count : ℕ) (t : Totals) : CycleResult where
  syncEventId := id
  startedAt := isoformat args.now
  durationMs := args.durationMs
  lapiFetchMs := args.lapiFetchMs
  snapshotMs := t.snapshotMs
  diffMs := t.diffMs
  applyMs := t.applyMs
  toAdd := t.totalAdd
  toRemove := t.totalRemove
  unchanged := t.unchanged
  dryRun := args.dryRun
  errors := t.errorCount
  notes := "; ".intercalate t.noteBits
  bouncerCount := count
  mtListCount := t.mtListCount
  mtCountValid := t.mtCountValid
  targets := t.targetState

section
variable (U : CaseMap) (T : CharTable) (compile : Compile) (reputation : BulkComputeForMin)

/-- `float(get_setting("reconcile.per_bouncer_timeout_s") or "60")` returns. -/
def timeoutOk (settings : String → Option String) : Bool :=
  pyFloatOk T (orElse (settings "reconcile.per_bouncer_timeout_s") "60")

/-- The threshold is bound as a parameter of the SELECT. -/
def thresholdOk (settings : String → Option String) : Bool := confidenceThreshold T settings < 2 ^ 63

/-- The workers' futures, one for each target. -/
def runWorkers (st : CycleStore) (args : CycleArgs) (targets : List Target) : List Future :=
  targets.map (runOneBouncer U compile reputation st.targets (desiredFromDb U T st.db args.now).1 args.dryRun args.batchCap)

def runOnce (st : CycleStore) (args : CycleArgs) (targets : List Target) : CycleOutcome :=
  if thresholdOk T st.db.settings = false then ⟨st,[],.error .thresholdOverflow⟩
  else
    let desired := (desiredFromDb U T st.db args.now).1
    let st' := { st with db := (desiredFromDb U T st.db args.now).2 }
    if targets = [] then
      -- a virtual diff against nothing, so that the dashboard shows the queue
      let diff := reconcile U (desired.map decisionOf) []
      let totals : Totals := {
        noteBits := ["no_bouncers_configured"]
        diffMs := args.virtualDiffMs
        totalAdd := diff.toAdd.length }
      ⟨st'.record args [] totals,[],.error .targetStateUnbound⟩
    else if timeoutOk T st'.db.settings = false then ⟨st',[],.error .badTimeout⟩
    else
      let futures := runWorkers U T compile reputation st args targets
      let totals := (targets.zip futures).foldl (Totals.take args.now) {}
      ⟨st'.record args targets totals,futures,.ok (resultOf (st'.syncEventsSeq + 1) args targets.length totals)⟩

end
end Protek.Targets
