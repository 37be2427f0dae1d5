import Protek.Alerts.Latch
import Protek.Foundation.PyFloat
import Protek.Store.Settings

/-! # The disk watchdog

Two thresholds with a hysteresis share one reading of the disk. A probe that failed reads
as 0 % used.
-/
namespace Protek.Alerts
open Foundation Foundation.Clock Foundation.PyText Protek.Store

/-! ## The check -/

structure DiskUsage where
  usedPct : ℚ
  freeBytes : ℕ
  totalBytes : ℕ
  error : Bool

def HYSTERESIS_PCT : ℚ := 5

inductive DiskCategory
  | critical
  | warn
  deriving DecidableEq

namespace DiskCategory

def name : DiskCategory → String
  | .critical => "critical"
  | .warn => "warn"

def alertedKey (c : DiskCategory) : String := "disk." ++ c.name ++ "_alerted"

end DiskCategory

structure DiskAlert where
  category : DiskCategory
  edge : Edge
  subject : String
  message : String

/-- The name under which the call returns what it fired. -/
def DiskAlert.fired (n : DiskAlert) : String := n.category.name ++ (if n.edge = .resolved then "_recovery" else "")

def gigabytes (bytes : ℕ) : String := fixed 1 (bytes / 1024 ^ 3)

/-- `_fire` -/
def fireDisk (u : DiskUsage) (warn critical : PyFloat) (c : DiskCategory) (e : Edge) : DiskAlert :=
  let verb := if e = .resolved then "recovered" else c.name
  ⟨c,e,"[Protek] disk " ++ verb,"Disk usage " ++ fixed 1 u.usedPct ++ "% on the protek.db filesystem (" ++ gigabytes u.freeBytes ++
    " GB free / " ++ gigabytes u.totalBytes ++ " GB total). Threshold: " ++ warn.format 0 ++ "% warn / " ++ critical.format 0 ++
    "% critical. Category: " ++ verb ++ "."⟩

/-- The edge of one category at a reading. -/
def diskEdge (usedPct : ℚ) (pct : PyFloat) (alerted : Bool) : Option Edge :=
  if PyFloat.le pct (.finite usedPct) then (if alerted then none else some .firing)
  else if PyFloat.lt (.finite usedPct) (pct.sub HYSTERESIS_PCT) ∧ alerted then some .resolved
  else none

structure DiskCall where
  settings : Settings
  fired : List DiskAlert

/-- The turn of one category: the alert goes out before its flag is written, and the write may fail. -/
def DiskCall.turn (u : DiskUsage) (warn critical pct : PyFloat) (alerted writes : Bool) (k : DiskCall) (c : DiskCategory) : DiskCall :=
  match diskEdge u.usedPct pct alerted with
  | none => k
  | some e =>
    ⟨if writes then k.settings.set c.alertedKey (if e = .firing then "1" else "0") else k.settings,
      k.fired ++ [fireDisk u warn critical c e]⟩

section
variable {u : DiskUsage} {warn critical pct : PyFloat} {alerted writes : Bool} {k : DiskCall} {c d : DiskCategory}

end

/-! ## Steps -/

section
variable {T : CharTable} {c : DiskCategory} {s : Settings} {probe : DiskProbe} {writes : DiskCategory → Bool}

end

/-! ## Runs on fixed inputs -/

end Protek.Alerts
