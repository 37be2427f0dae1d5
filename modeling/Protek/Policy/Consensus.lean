import Protek.Policy.TimedBans
import Mathlib.Data.List.Dedup

/-! # Do consensus bans lapse

Under a confidence threshold of two or more a value is listed while enough sources
have been seen with it in the last week. `ip_sources` is written when a decision is
delivered, and a stream delivers a decision once however long it stays active.
-/
namespace Protek.Policy
open Foundation Foundation.PyText Foundation.Clock Protek.Store Protek.Mirror

/-! ## When a source was last seen with a value -/

section
variable (U : CaseMap) (T : CharTable)

end

section
variable {U : CaseMap} {T : CharTable} {db db' s : Db} {now : Instant}

end

def twoSourceMode : Db := Db.empty.setSetting "federation.confidence_threshold" "2"

def sharedBan : LapiDecision := ⟨7,"203.0.113.9","Ip","ban","ssh-bf","","",none⟩

def eventTransition (db : Db) (now : Instant) (op : Op) : Transition Db Event :=
  ⟨db,⟨now,op⟩,perform .ascii .ascii db ⟨now,op⟩⟩

def firstListed : Transition Db Event := eventTransition twoSourceMode 0 (.bootstrap "lapi-a" [sharedBan])

def bothListed : Transition Db Event := eventTransition firstListed.after 0 (.bootstrap "lapi-b" [sharedBan])

end Protek.Policy
