import Mathlib.Logic.Function.Basic
import Protek.Foundation.Clock
import Protek.Foundation.Fnmatch
import Protek.Foundation.PyText
import Protek.Foundation.Trace

/-! # Alert rules

A tick evaluates every rule on one snapshot. The state of a rule counts the evaluations
in a row at which it matched and keeps whether it is firing; a silence holds the
notifications back.
-/
namespace Protek.Alerts
open Foundation Foundation.Clock Foundation.PyText
open Foundation.Fnmatch (fnmatchcase)

/-! ## The rules -/

/-- What the rules read; the poll lag is in microseconds, 1e9 seconds where there was no poll. -/
structure Snapshot where
  now : Instant
  pollLag : ℤ
  pollerLastOk : Bool
  pollerLastError : String
  recentErrs : List ℤ
  approvalPending : ℕ
  mtStatus : String

/-- `f"{lag:.0f}"`: whole seconds, the half to the even one. -/
def secondsText (lag : ℤ) : String :=
  let q := lag.natAbs / second
  let r := lag.natAbs % second
  let n := if second < 2 * r ∨ (second = 2 * r ∧ q % 2 = 1) then q + 1 else q
  (if lag < 0 then "-" else "") ++ toString n

def ruleLapiDown (s : Snapshot) : Bool × String := (!s.pollerLastOk,"poller last error: " ++ s.pollerLastError)

def ruleSyncStale (s : Snapshot) : Bool × String :=
  (300 * (second : ℤ) < s.pollLag,"last poll " ++ secondsText s.pollLag ++ "s ago")

def ruleMtUnreachable (s : Snapshot) : Bool × String := (s.mtStatus = "down","mt status = " ++ s.mtStatus)

def ruleSyncErrorsBurst (s : Snapshot) : Bool × String :=
  (s.recentErrs.length = 5 && s.recentErrs.all (fun e => 0 < e),
    "5/5 recent cycles errored ([" ++ ", ".intercalate (s.recentErrs.map toString) ++ "])")

def ruleApprovalBacklog (s : Snapshot) : Bool × String :=
  (50 < s.approvalPending,toString s.approvalPending ++ " decisions awaiting approval")

structure Rule where
  key : String
  title : String
  level : ℕ
  predicate : Snapshot → Bool × String
  debounce : ℕ

def Rule.holds (r : Rule) (s : Snapshot) : Bool := (r.predicate s).1

def lvlCrit : ℕ := 2

def lvlWarn : ℕ := 4

def lvlInfo : ℕ := 6

/-- `RULES`. -/
def rules : List Rule :=
  [⟨"lapi_down_5m","LAPI down ≥ 5 min",lvlCrit,ruleLapiDown,30⟩,
    ⟨"sync_stale_5m","Reconcile cycle stale ≥ 5 min",lvlCrit,ruleSyncStale,1⟩,
    ⟨"mt_unreachable_2m","MikroTik unreachable ≥ 2 min",lvlCrit,ruleMtUnreachable,12⟩,
    ⟨"sync_errors_burst","Sync errors on 5 consecutive cycles",lvlWarn,ruleSyncErrorsBurst,1⟩,
    ⟨"approval_backlog","Approval queue > 50",lvlInfo,ruleApprovalBacklog,6⟩]

/-! ## The tables -/

/-- A row of `alert_states`. -/
structure AlertState where
  firing : Bool
  level : ℕ
  firingSince : Option String
  lastCheck : String
  lastMessage : String
  lastNotified : Option String
  consecutive : ℕ
  deriving DecidableEq, Repr

structure Silence where
  id : ℕ
  pattern : String
  untilAt : String
  reason : String
  createdAt : String
  createdBy : String
  deriving DecidableEq, Repr

structure AlertDb where
  states : String → Option AlertState
  silences : List Silence
  silencesSeq : ℕ
  settings : String → Option String

/-- `_load_state`. -/
def loadState (db : AlertDb) (key : String) : AlertState :=
  (db.states key).getD ⟨false,lvlInfo,none,"","",none,0⟩

def isSilenced (db : AlertDb) (key : String) (now : Instant) : Option Silence :=
  db.silences.find? (fun r => isoformat now < r.untilAt && fnmatchcase key r.pattern)

def addSilence (db : AlertDb) (pattern untilAt reason actor : String) (now : Instant) : AlertDb :=
  { db with
    silences := db.silences ++ [⟨db.silencesSeq + 1,pattern,untilAt,reason,isoformat now,actor⟩]
    silencesSeq := db.silencesSeq + 1 }

def removeSilence (db : AlertDb) (silenceId : ℕ) : AlertDb :=
  { db with silences := db.silences.filter (fun r => r.id ≠ silenceId) }

/-! ## Notifications -/

/-- The two transitions that are notified. -/
inductive Edge
  | firing
  | resolved
  deriving DecidableEq, Repr

structure Notification where
  key : String
  edge : Edge
  subject : String
  body : String
  channels : List String
  deriving DecidableEq, Repr

def routeFor (level : ℕ) : List String := if level ≤ lvlCrit then ["discord","telegram","email"] else ["discord"]

/-- `_notify`: what goes out, to which channels. -/
def notify (db : AlertDb) (r : Rule) (message : String) (edge : Edge) : Notification where
  key := r.key
  edge := edge
  subject := (if edge = .resolved then "[RESOLVED] " else "[FIRING] ") ++ r.title
  body := if edge = .resolved then "RESOLVED — " ++ message else message
  channels :=
    let override := orElse (db.settings ("alerting.rule." ++ r.key ++ ".channels")) ""
    if override = "" then routeFor r.level else ((split override ',').map strip).filter (fun c => c ≠ "")

/-! ## One evaluation -/

/-- What the evaluation of a rule writes to its state, and the transition that it notifies. -/
structure Evaluation where
  firing : Bool
  firingSince : Option String
  message : String
  consecutive : ℕ
  edge : Option Edge
  deriving DecidableEq, Repr

def evaluate (r : Rule) (s : Snapshot) (prev : AlertState) (suppressed : Bool) : Evaluation :=
  let firingNow := r.holds s
  let consecutive := if firingNow then prev.consecutive + 1 else 0
  let active := decide (r.debounce ≤ consecutive)
  let edge :=
    if active && !prev.firing && !suppressed then some .firing
    else if prev.firing && !firingNow && !suppressed then some .resolved
    else none
  { firing := active && !suppressed
    firingSince :=
      match edge with
      | some .firing => some (isoformat s.now)
      | some .resolved => none
      | none => prev.firingSince
    message := (r.predicate s).2
    consecutive := consecutive
    edge := edge }

/-- The notification of an evaluation; one without a text says that the condition cleared. -/
def Evaluation.notification (e : Evaluation) (db : AlertDb) (r : Rule) : Option Notification :=
  e.edge.map (fun edge => notify db r (if edge = .resolved then orElse (some e.message) "condition cleared" else e.message) edge)

/-- `_save_state`. -/
def saveState (db : AlertDb) (r : Rule) (e : Evaluation) (now : Instant) : AlertDb :=
  { db with
    states := Function.update db.states r.key (some
      { firing := e.firing
        level := r.level
        firingSince := e.firingSince
        lastCheck := isoformat now
        lastMessage := String.ofList (e.message.toList.take 300)
        lastNotified := if e.edge.isSome then some (isoformat now) else (db.states r.key).bind AlertState.lastNotified
        consecutive := e.consecutive }) }

/-! ## A tick -/

structure Report where
  key : String
  title : String
  level : ℕ
  evaluation : Evaluation
  silence : Option Silence
  debounce : ℕ

/-- The database, the notifications and the reports of the rules so far. -/
structure Tick where
  db : AlertDb
  sent : List Notification
  reports : List Report

/-- The clock readings at a rule: when its silence is looked up, and when its state is saved. -/
structure Readings where
  silenced : String → Instant
  saved : String → Instant

def Tick.turn (s : Snapshot) (clock : Readings) (k : Tick) (r : Rule) : Tick :=
  let silence := isSilenced k.db r.key (clock.silenced r.key)
  let e := evaluate r s (loadState k.db r.key) silence.isSome
  { db := saveState k.db r e (clock.saved r.key)
    sent := k.sent ++ (e.notification k.db r).toList
    reports := k.reports ++ [⟨r.key,r.title,r.level,e,silence,r.debounce⟩] }

def tick (db : AlertDb) (s : Snapshot) (clock : Readings) : Tick := rules.foldl (Tick.turn s clock) ⟨db,[],[]⟩

/-! ## What an evaluation does -/

section
variable {r : Rule} {s : Snapshot} {prev : AlertState} {suppressed : Bool}

/-- The stored flag of a rule is up only after as many matches in a row as its debounce. -/
def Debounced (r : Rule) (prev : AlertState) : Prop := prev.firing = true → r.debounce ≤ prev.consecutive

theorem evaluate_consecutive : (evaluate r s prev suppressed).consecutive = if r.holds s then prev.consecutive + 1 else 0 := rfl

theorem evaluate_firing : (evaluate r s prev suppressed).firing =
    (decide (r.debounce ≤ (evaluate r s prev suppressed).consecutive) && !suppressed) := rfl

theorem evaluate_edge_firing : (evaluate r s prev suppressed).edge = some .firing ↔
    r.debounce ≤ (evaluate r s prev suppressed).consecutive ∧ prev.firing = false ∧ suppressed = false := by
  unfold evaluate
  cases prev.firing <;> cases suppressed <;> simp

/-- A rule that was firing is resolved as soon as its condition does not hold and nothing silences it. -/
theorem evaluate_edge_resolved : (evaluate r s prev suppressed).edge = some .resolved ↔
    prev.firing = true ∧ r.holds s = false ∧ suppressed = false := by
  unfold evaluate
  cases r.holds s <;> cases prev.firing <;> cases suppressed <;> simp

/-- Without a silence, the flag goes up with a firing notification and comes down with a resolved one. -/
theorem evaluate_follows (hd : 1 ≤ r.debounce) (hprev : Debounced r prev) (hs : prev.firing = true → suppressed = false) :
    (evaluate r s prev suppressed).firing = match (evaluate r s prev suppressed).edge with
      | some .firing => true
      | some .resolved => false
      | none => prev.firing := by
  unfold evaluate
  cases hf : prev.firing with
  | false => cases suppressed <;> cases r.holds s <;> simp <;> split <;> simp_all
  | true =>
    rw [hs hf]
    have hn := hprev hf
    cases r.holds s with
    | false => simp; omega
    | true => simp; omega

/-- Without a notification that it is resolved, a firing alert goes on firing. -/
theorem evaluate_stays_firing (hd : 1 ≤ r.debounce) (hprev : Debounced r prev) (hs : prev.firing = true → suppressed = false)
    (hup : prev.firing = true) (hedge : (evaluate r s prev suppressed).edge ≠ some .resolved) :
    (evaluate r s prev suppressed).firing = true := by
  rw [evaluate_follows hd hprev hs]
  cases he : (evaluate r s prev suppressed).edge with
  | none => exact hup
  | some e =>
    cases e with
    | firing => rfl
    | resolved => exact absurd he hedge

end

theorem debounce_pos {r : Rule} (hr : r ∈ rules) : 1 ≤ r.debounce := by
  simp only [rules, List.mem_cons, List.not_mem_nil, or_false] at hr
  rcases hr with rfl | rfl | rfl | rfl | rfl <;> decide

theorem keys_nodup : (rules.map Rule.key).Nodup := by decide

end Protek.Alerts
