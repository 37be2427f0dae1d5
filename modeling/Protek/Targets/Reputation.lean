import Protek.Diff.Reconcile
import Protek.Foundation.ClockOrder
import Protek.Targets.Cycle

/-! # The set of a minimum reputation

The scores are cached for six hours, and a call computes two hundred of those that are
missing. What a call does not get to counts as not qualifying, so a value can leave the
set of a target while its score does not change.
-/
namespace Protek.Targets
open Foundation Foundation.PyText Foundation.Clock Protek.Policy Protek.Diff Protek.Store

section
variable {compute : Compute} {active : List String} {cache cache' : ReputationCache} {now t : Instant} {m : ℤ} {v : String}
  {r : CacheRow}

end

def host (n : ℕ) : String := "10.0.0." ++ toString n

def hostRow (n : ℕ) : DecisionRow where
  id := n + 1
  originSource := "capi"
  lapiId := n
  value := host n
  scope := "Ip"
  type := "ban"
  scenario := "ssh-bf"
  origin := ""
  duration := ""
  untilAt := none
  firstSeenAt := isoformat 0
  lastSeenAt := isoformat 0
  deletedAt := none

end Protek.Targets
