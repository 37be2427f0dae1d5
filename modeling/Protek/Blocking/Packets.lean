import Protek.Blocking.Verdict
import Protek.Foundation.RuleChains

/-! # The verdict and the packets

What the router does with a packet from outside: the prerouting chain of the raw table,
then the input or the forward chain of the filter table, first match in each. The
verdict is held against the packets the rules of the list drop.
-/
namespace Protek.Blocking
open Foundation Foundation.PyText
open Foundation.RuleChains (Filter Walk Outcome Unaccepted Reached)

/-- What the rules may ask of a packet: whether its source is in an address-list, and all the rest. -/
structure Router (π : Type*) where
  inList : String → π → Prop
  meets : String → String → π → Prop

/-- The chains of the router itself; no rule jumps to one of them. -/
def builtinChains : List String := ["prerouting","input","forward","output","postrouting"]

def verdict (r : Rule) : RuleChains.Verdict String :=
  if orElse (get r "action") "accept" = "accept" then .accept
  else if blocks r then .drop
  else if get r "action" = some "jump" then
    if orElse (get r "jump-target") "" ∈ builtinChains then .pass else .jump (orElse (get r "jump-target") "")
  else if get r "action" = some "return" then .back
  else .pass

section
variable {π : Type*}

/-- The source is one that the value of a `src-address-list` asks for. -/
def Router.fromList (R : Router π) (value : String) (p : π) : Prop :=
  if value = "" then True
  else if startsWith value "!" then ¬ R.inList (dropStart value 1) p
  else R.inList value p

/-- The packet meets what the rule asks for besides the source list. -/
def Router.MeetsRest (R : Router π) (r : Rule) (p : π) : Prop :=
  ∀ e ∈ r.items, e.1 ∉ nonMatchers → e.1 ≠ "src-address-list" → R.meets e.1 e.2 p

/-- The rule is in force and the packet meets all that it asks for. -/
def Router.Matches (R : Router π) (U : CaseMap) (r : Rule) (p : π) : Prop :=
  enabled U r = true ∧ R.fromList (orElse (get r "src-address-list") "") p ∧ R.MeetsRest r p

def Router.filter (R : Router π) (U : CaseMap) : Filter Rule π String where
  chain := chain
  applies := R.Matches U
  verdict := verdict

/-- The chain of a table that a packet comes through, on its way to `c`. -/
def route (c : String) : Table → String
  | .raw => "prerouting"
  | .filter => c

/-- The rule at the place drops a packet on its way through `c`. -/
def DroppedAt (R : Router π) (U : CaseMap) (tables : Table → List Rule) (c : String) (p : π) : Table → ℕ → Prop
  | .raw, i => Walk (R.filter U) (tables .raw) p (route c .raw) 0 (.dropped i)
  | .filter, i => (∃ o, Walk (R.filter U) (tables .raw) p (route c .raw) 0 o ∧ ∀ j, o ≠ .dropped j) ∧
      Walk (R.filter U) (tables .filter) p (route c .filter) 0 (.dropped i)

variable {R : Router π} {U : CaseMap} {T : CharTable} {tables : Table → List Rule} {list c : String} {p : π}

theorem DroppedAt.walk {t : Table} {i : ℕ} (h : DroppedAt R U tables c p t i) :
    Walk (R.filter U) (tables t) p (route c t) 0 (.dropped i) := by
  cases t with
  | raw => exact h
  | filter => exact h.2

end

def dropRule (extra : List (String × String)) : List (String × String) :=
  [("chain","input"),("action","drop"),("src-address-list","crowdsec")] ++ extra

/-- One rule in the filter table drops the list on the input chain. -/
def exampleTables : Table → List Rule
  | .raw => []
  | .filter => [⟨dropRule [],by decide⟩]

end Protek.Blocking
