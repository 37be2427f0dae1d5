import Protek.Foundation.Trace
import Protek.Targets.Synthetic

/-! # What starts a cycle

The poller's ticks, the two sync routes and the self-test, each with its own way to the
dry-run flag, and the requests that change the switches: the settings page, and promotion
and demotion between primary and standby. The role is looked at when a process starts.
-/
namespace Protek.Targets
open Foundation Foundation.PyText Foundation.Clock Protek.Store Protek.Policy Protek.Diff

inductive Role
  | primary
  | standby
  deriving DecidableEq, Repr

/-- What is fixed while the processes run: the environment, and Python's own parts. `parseIso`
is `datetime.fromisoformat` of a text with an offset, where `Z` is one too. -/
structure Env where
  caseMap : CaseMap
  charTable : CharTable
  compile : Compile
  reputation : BulkComputeForMin
  parseIso : String → Option Instant
  dryRun : Option String := none
  batchCap : ℕ := 200
  haRole : Option String := none

/-- `_envstr`: a variable up to a `#`, without the white space around it. -/
def envstr (var : Option String) (default : String) : String := strip ((split (var.getD default) '#').headD "")

namespace Env
variable (E : Env)

/-- The constant `DRY_RUN` of a process. -/
def bootDryRun : Bool := E.caseMap.lower (envstr E.dryRun "true") ∈ ["1","true","yes"]

def roleOf (text : String) : Option Role :=
  if text = "primary" then some .primary else if text = "standby" then some .standby else none

/-- `ha.role()`: the setting, or else the environment, or else primary. -/
def role (settings : String → Option String) : Role :=
  ((roleOf (E.caseMap.lower (strip (orElse (settings "ha.role") "")))).or
    (roleOf (E.caseMap.lower (envstr E.haRole "")))).getD .primary

end Env

/-- The poller object of the process that owns the lock. -/
structure Poller where
  dryRun : Bool
  batchCap : ℕ
  cycles : ℕ := 0
  deriving DecidableEq, Repr

/-- The database, the poller if some process runs one, and every call to a target's `apply` so far. -/
structure World where
  store : CycleStore
  poller : Option Poller
  applied : List ApplyCall

inductive Event
  | start
  | stop
  | promote
  | demote
  | saveSettings (dry : Bool) (batchCap : ℕ) (ownsPoller : Bool)
  | tick (now : Instant) (hasSources : Bool) (pulled : Db) (targets : List Target) (probes : List Probe)
  | apiSyncRun (now : Instant) (targets : List Target)
  | v1SyncRun (now : Instant) (targets : List Target)
  | syntheticRun (now : Instant) (probes : List Probe)
  | elsewhere (store : CycleStore)

/-- Apart from the settings page and the role form, nothing writes the two switches. -/
def SameSwitches (a b : Db) : Prop :=
  a.settings "settings.dry_run" = b.settings "settings.dry_run" ∧ a.settings "ha.role" = b.settings "ha.role"

/-- The knobs that a tick takes from the settings table, if they are there. -/
def Poller.readKnobs (T : CharTable) (p : Poller) (settings : String → Option String) : Poller :=
  let dry := settings "settings.dry_run"
  { p with
    dryRun := if dry = some "0" ∨ dry = some "1" then dry = some "1" else p.dryRun
    batchCap := match pyInt T (orElse (settings "settings.batch_cap") "0") with
      | some n => if 1 ≤ n then n.toNat else p.batchCap
      | none => p.batchCap }

/-- `max(1, int(settings.batch_cap or "200"))`, 200 where the setting is no number. -/
def v1BatchCap (T : CharTable) (settings : String → Option String) : ℕ :=
  match pyInt T (orElse (settings "settings.batch_cap") "200") with
  | some n => (max 1 n).toNat
  | none => 200

namespace World

def withDb (w : World) (db : Db) : World := { w with store := { w.store with db := db } }

section
variable (E : Env)

/-- A cycle with its calls, raised or not. -/
def cycle (w : World) (args : CycleArgs) (targets : List Target) : World :=
  let o := runOnce E.caseMap E.charTable E.compile E.reputation w.store args targets
  { w with store := o.store, applied := w.applied ++ o.calls }

def selfTest (w : World) (now : Instant) (probes : List Probe) : World :=
  let o := runTest E.caseMap E.dryRun w.store.db w.store.targets probes now
  { w.withDb o.db with applied := w.applied ++ o.calls }

@[simp] theorem poller_cycle (w : World) (args : CycleArgs) (targets : List Target) :
    (w.cycle E args targets).poller = w.poller := by simp only [cycle]

@[simp] theorem poller_selfTest (w : World) (now : Instant) (probes : List Probe) :
    (w.selfTest E now probes).poller = w.poller := by simp only [selfTest, withDb]

/-- `synthetic.maybe_run_scheduled` would run a test: it is enabled and the last is six hours old. -/
def testDue (settings : String → Option String) (now : Instant) : Bool :=
  let last := orElse (settings "synthetic.last_at") ""
  orElse (settings "synthetic.enabled") "0" = "1" && (last = "" ||
    match E.parseIso last with
    | some t => decide (t + 6 * hour ≤ now)
    | none => true)

/-- The poller's next cycle, as its arguments. -/
def tickArgs (p : Poller) (now : Instant) : CycleArgs :=
  { source := "auto", dryRun := p.dryRun, batchCap := p.batchCap, now := now }

def afterPulls (w : World) (p : Poller) (pulled : Db) : World := { w.withDb pulled with poller := some p }

/-- `Poller.tick`: knobs, pulls, cycle, and on every 2160th cycle perhaps the self-test. The
status that a tick leaves in the settings table is not looked at by any trigger. -/
def tick (w : World) (p : Poller) (now : Instant) (hasSources : Bool) (pulled : Db) (targets : List Target)
    (probes : List Probe) : World :=
  let p := p.readKnobs E.charTable w.store.db.settings
  if hasSources = false then { w with poller := some p }
  else
    let w' := (w.afterPulls { p with cycles := p.cycles + 1 } pulled).cycle E (tickArgs p now) targets
    if (p.cycles + 1) % 2160 = 0 ∧ testDue E w'.store.db.settings now = true then w'.selfTest E now probes else w'

/-- `POST /api/sync/run`, with the constants of the process. -/
def apiSyncRun (w : World) (now : Instant) (targets : List Target) : World :=
  w.cycle E { source := "manual", dryRun := E.bootDryRun, batchCap := E.batchCap, now := now } targets

/-- `POST /api/v1/sync/run`, with the settings. -/
def v1SyncRun (w : World) (now : Instant) (targets : List Target) : World :=
  w.cycle E { source := "manual"
              dryRun := orElse (w.store.db.settings "settings.dry_run") "1" = "1"
              batchCap := v1BatchCap E.charTable w.store.db.settings
              now := now } targets

/-- A process starts: on a primary it runs the poller, unless another process does already. -/
def start (w : World) : World :=
  if E.role w.store.db.settings = .standby then w
  else if w.poller.isSome then w
  else { w with poller := some { dryRun := E.bootDryRun, batchCap := E.batchCap } }

/-- The settings page; the process that owns the poller sets its attributes as well. -/
def saveSettings (w : World) (dry : Bool) (batchCap : ℕ) (ownsPoller : Bool) : World :=
  { w.withDb ((w.store.db.setSetting "settings.batch_cap" (toString batchCap)).setSetting "settings.dry_run"
      (if dry then "1" else "0")) with
    poller := if ownsPoller then w.poller.map (fun p => { p with dryRun := dry, batchCap := batchCap }) else w.poller }

/-- A start touches the poller alone, and on a primary only. -/
theorem start_cases (w : World) : w.start E = w ∨
    (E.role w.store.db.settings = .primary ∧ ∃ p, w.start E = { w with poller := some p }) := by
  unfold start
  by_cases hrole : E.role w.store.db.settings = .standby
  · exact Or.inl (if_pos hrole)
  · rw [if_neg hrole]
    by_cases hp : w.poller.isSome = true
    · exact Or.inl (if_pos hp)
    · rw [if_neg hp]
      refine Or.inr ⟨?_,_,rfl⟩
      cases hr : E.role w.store.db.settings with
      | primary => rfl
      | standby => exact absurd hr hrole

end
end World

/-- What a host does. `stop` is the exit of the process with the poller. -/
inductive Step (E : Env) : World → Event → World → Prop
  | start {w : World} : Step E w .start (w.start E)
  | stop {w : World} : Step E w .stop { w with poller := none }
  | promote {w : World} : Step E w .promote (w.withDb (w.store.db.setSetting "ha.role" "primary"))
  | demote {w : World} : Step E w .demote (w.withDb (w.store.db.setSetting "ha.role" "standby"))
  | saveSettings {w : World} {dry : Bool} {batchCap : ℕ} {owns : Bool} :
      Step E w (.saveSettings dry batchCap owns) (w.saveSettings dry batchCap owns)
  | tick {w : World} {p : Poller} {now : Instant} {hasSources : Bool} {pulled : Db} {targets : List Target}
      {probes : List Probe} (hp : w.poller = some p) (hsame : SameSwitches pulled w.store.db) :
      Step E w (.tick now hasSources pulled targets probes) (w.tick E p now hasSources pulled targets probes)
  | apiSyncRun {w : World} {now : Instant} {targets : List Target} :
      Step E w (.apiSyncRun now targets) (w.apiSyncRun E now targets)
  | v1SyncRun {w : World} {now : Instant} {targets : List Target} :
      Step E w (.v1SyncRun now targets) (w.v1SyncRun E now targets)
  | syntheticRun {w : World} {now : Instant} {probes : List Probe} :
      Step E w (.syntheticRun now probes) (w.selfTest E now probes)
  | elsewhere {w : World} {st : CycleStore} (hsame : SameSwitches st.db w.store.db) :
      Step E w (.elsewhere st) { w with store := st }

end Protek.Targets
