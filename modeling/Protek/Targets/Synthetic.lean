import Protek.Targets.Cycle

/-! # The synthetic self-test

`run_test` pushes one documentation address to each live target and takes it off again,
around the reconcile cycle. Which targets are live is its own reading of the switches.
-/
namespace Protek.Targets
open Foundation Foundation.PyText Foundation.Clock Protek.Store Protek.Policy Protek.Diff

def SYNTH_IP : String := "192.0.2.250"
def SYNTH_ORIGIN : String := "synthetic"
def SYNTH_SCENARIO : String := "protek/synthetic-self-test"

/-- A target with what its three snapshots return during a test. -/
structure Probe where
  target : Target
  afterAdd : Except String (List Entry)
  beforeRemove : Except String (List Entry)
  afterRemove : Except String (List Entry)

/-- One below the least of the rows' numbers, and below 0. -/
def nextLapiId (db : Db) : ℤ :=
  let ids := (db.decisions.rows.filter (fun r => r.originSource = SYNTH_ORIGIN)).map DecisionRow.lapiId
  min (ids.min?.getD 0) 0 - 1

/-- Does `settings.dry_run`, or else the environment, let the router of `.env` be written? -/
def envDryLive (U : CaseMap) (settings : String → Option String) (envDryRun : Option String) : Bool :=
  if settings "settings.dry_run" = some "0" then true
  else if settings "settings.dry_run" = some "1" then false
  else U.lower (strip (orElse (some (envDryRun.getD "true")) "true")) ∉ ["1","true","yes"]

/-- `_live_bouncers`: a target of the database is live by its own flag alone. -/
def isLive (U : CaseMap) (settings : String → Option String) (envDryRun : Option String) (table : TargetTable)
    (b : Target) : Bool :=
  if b.kind = "mikrotik_env" then envDryLive U settings envDryRun
  else match table.find b.name with
    | none => false
    | some row => row.dryRun = 0

def synthRow (lapiId : ℤ) (now : Instant) : DecisionRow where
  id := 0
  originSource := SYNTH_ORIGIN
  lapiId := lapiId
  value := SYNTH_IP
  scope := "Ip"
  type := "ban"
  scenario := SYNTH_SCENARIO
  origin := SYNTH_ORIGIN
  duration := "15m"
  untilAt := some (isoformat (now + 15 * 60 * second))
  firstSeenAt := isoformat now
  lastSeenAt := isoformat now
  deletedAt := none

def insertSynthDecision (db : Db) (lapiId : ℤ) (now : Instant) : Db :=
  db.upsertDecision (synthRow lapiId now) (fun r => { r with
    lapiId := lapiId
    untilAt := some (isoformat (now + 15 * 60 * second))
    lastSeenAt := isoformat now
    deletedAt := none }) (fun _ => rfl)

def isSynth (lapiId : ℤ) (r : DecisionRow) : Bool := r.originSource = SYNTH_ORIGIN ∧ r.lapiId = lapiId

def softDeleteSynth (db : Db) (lapiId : ℤ) (now : Instant) : Db := db.tombstone (isSynth lapiId) (isoformat now)

def hardPurgeSynth (db : Db) (lapiId : ℤ) : Db := { db with decisions := db.decisions.remove (isSynth lapiId) }

/-- The entry of the test address, with or without a prefix length. -/
def findInSnapshot (snapshot : Except String (List Entry)) : Option Entry :=
  match snapshot with
  | .error _ => none
  | .ok entries => entries.find? (fun e => (split (orElse e.address "") '/').headD "" = SYNTH_IP)

/-- `entry.get(".id") or entry.get("id") or entry.get("address")`. -/
def removalId (e : Entry) : String := orElse e.dotId (orElse e.id (orElse e.address ""))

def Probe.passed (p : Probe) : Bool := (findInSnapshot p.afterAdd).isSome && (findInSnapshot p.afterRemove).isNone

/-- The results are kept by name. -/
def testStatus (live : List Probe) : String :=
  let results := OrderedDict.ofLast (fun p => p.target.name) live
  let okN := results.items.countP (fun r => r.2.passed)
  if okN = live.length then "ok" else if okN = 0 then "failed" else "partial"

structure TestOutcome where
  db : Db
  calls : List ApplyCall
  status : String

/-- `run_test`. The row of the test is gone at the end, whatever the targets did. -/
def runTest (U : CaseMap) (envDryRun : Option String) (db : Db) (table : TargetTable) (probes : List Probe)
    (now : Instant) : TestOutcome :=
  let lapiId := nextLapiId db
  let live := probes.filter (fun p => isLive U db.settings envDryRun table p.target)
  let finish (db : Db) (status : String) : Db :=
    (db.setSetting "synthetic.last_at" (isoformat now)).setSetting "synthetic.last_status" status
  if live = [] then ⟨finish db "skipped",[],"skipped"⟩
  else
    let comment := "protek:" ++ SYNTH_ORIGIN ++ ":self-test:" ++ toString lapiId
    let adds := live.map (fun p => (⟨p.target.name,[(SYNTH_IP,comment)],[]⟩ : ApplyCall))
    let removals := live.filterMap (fun p => (findInSnapshot p.beforeRemove).map (fun e =>
      (⟨p.target.name,[],[removalId e]⟩ : ApplyCall)))
    let db := softDeleteSynth (insertSynthDecision db lapiId now) lapiId now
    let status := testStatus live
    ⟨finish (hardPurgeSynth db lapiId) status,adds ++ removals,status⟩

end Protek.Targets
