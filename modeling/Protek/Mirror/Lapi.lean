import Protek.Foundation.DeltaMirror
import Mathlib.Data.Int.Notation

/-! # The local API of a source

A LAPI holds active decisions with unique ids and, for the bouncer key, the
changes since its stream cursor. It answers the two requests of the client in
any order, and only for the scopes that the client asks for.
-/
namespace Protek.Mirror
open Foundation

structure LapiDecision where
  id : ℤ
  value : String
  scope : String
  type : String
  scenario : String
  origin : String := ""
  duration : String := ""
  untilAt : Option String := none
  deriving DecidableEq, Repr

def LapiDecision.identity (d : LapiDecision) : String × String × String := (d.value,d.scope,d.scenario)

def LapiDecision.inScope (d : LapiDecision) : Bool := d.scope = "Ip" ∨ d.scope = "Range"

/-- What the two calls `decisions(scope="Ip")` and `decisions(scope="Range")` list between them. -/
def LapiDecision.listed (d : LapiDecision) : Bool := d.inScope ∧ d.type = "ban"

abbrev Lapi := Feed LapiDecision ℤ LapiDecision.id

namespace Lapi

/-- An answer to GET /v1/decisions. -/
def ServesDecisions (lapi : Lapi) (scope type : String) (answer : List LapiDecision) : Prop :=
  answer.Perm (lapi.active.filter (fun d => d.scope = scope ∧ d.type = type))

/-- An answer to GET /v1/decisions/stream?scopes=Ip,Range. -/
def ServesStream (lapi : Lapi) (new deleted : List LapiDecision) : Prop :=
  new.Perm (lapi.active.filter (fun d => d.id ∈ lapi.pending ∧ d.inScope)) ∧
  deleted.Perm (lapi.gone.filter (fun d => d.inScope))

theorem mem_listing {lapi : Lapi} {ip range : List LapiDecision} (hip : lapi.ServesDecisions "Ip" "ban" ip)
    (hrange : lapi.ServesDecisions "Range" "ban" range) (d : LapiDecision) :
    d ∈ ip ++ range ↔ d ∈ lapi.active ∧ d.listed = true := by
  rw [List.mem_append, hip.mem_iff, hrange.mem_iff]
  simp only [List.mem_filter, decide_eq_true_eq, LapiDecision.listed, LapiDecision.inScope]
  tauto

theorem ServesStream.mem_new {lapi : Lapi} {new deleted : List LapiDecision} (h : lapi.ServesStream new deleted)
    (d : LapiDecision) : d ∈ new ↔ d ∈ lapi.active ∧ d.id ∈ lapi.pending ∧ d.inScope = true := by
  rw [h.1.mem_iff]
  simp

theorem ServesStream.mem_deleted {lapi : Lapi} {new deleted : List LapiDecision} (h : lapi.ServesStream new deleted)
    (d : LapiDecision) : d ∈ deleted ↔ d ∈ lapi.gone ∧ d.inScope = true := by
  rw [h.2.mem_iff]
  simp

end Lapi
end Protek.Mirror
