import Mathlib.Data.List.Dedup
import Mathlib.Data.List.Sort
import Protek.Foundation.OrderedDict
import Protek.Foundation.PyText

/-! # The blocking verdict

The firewall rules of one address family of a router, read for the rules that drop what
comes from an address-list. A rule is a dictionary of texts, as the router returns it.
-/
namespace Protek.Blocking
open Foundation Foundation.PyText

abbrev Rule := OrderedDict String String

/-- `rule.get(k)`. -/
def get (r : Rule) (k : String) : Option String := (r.items.find? (fun e => e.1 = k)).map Prod.snd

inductive Table
  | raw
  | filter
  deriving DecidableEq, Repr

inductive Status
  | none
  | disabled
  | shadowed
  | unknown
  | unverified
  | blocking
  deriving DecidableEq, Repr

/-- `_BLOCK_ACTIONS`. -/
def blockActions : List String := ["drop","reject","tarpit"]

/-- `_BUILTIN`: the chains a packet from outside goes through, and the traffic each one covers. -/
def builtin : Table → List (String × List String)
  | .raw => [("prerouting",["input","forward"])]
  | .filter => [("input",["input"]),("forward",["forward"])]

/-- `_IRRELEVANT`. -/
def irrelevant : List String := ["output","postrouting"]

/-- `_NON_MATCHERS`: the keys that describe a rule and do not restrict what it matches. -/
def nonMatchers : List String :=
  [".id","id",".nextid",".about","chain","action","disabled","dynamic","invalid","comment","log","log-prefix",
    "bytes","packets","jump-target","reject-with","address-list","address-list-timeout","passthrough",
    "new-connection-mark","new-packet-mark","new-routing-mark","new-dscp","new-ttl","new-mss","new-priority",
    "to-addresses","to-ports","route-dst","hw-offload","place-before"]

/-- `_truthy(rule.get(k))`; the text of a missing value is `None`. -/
def truthy (U : CaseMap) (v : Option String) : Bool :=
  match v with
  | none => false
  | some s => U.lower (strip s) ∈ ["true","yes","1"]

/-- `_int(rule.get(k))`. -/
def int (T : CharTable) (v : Option String) : ℤ :=
  match v with
  | none => 0
  | some s => (pyInt T (strip s)).getD 0

def chain (r : Rule) : String := orElse (get r "chain") ""

def names (list : String) (r : Rule) : Bool := orElse (get r "src-address-list") "" = list

def blocks (r : Rule) : Bool := orElse (get r "action") "" ∈ blockActions

def enabled (U : CaseMap) (r : Rule) : Bool := !truthy U (get r "disabled") && !truthy U (get r "invalid")

def isUnconditionalAccept (U : CaseMap) (r : Rule) : Bool :=
  if orElse (get r "action") "accept" ≠ "accept" then false
  else if truthy U (get r "disabled") || truthy U (get r "invalid") then false
  else !(r.keys.any (fun k => k ∉ nonMatchers))

/-- What is told of a rule that drops the list. -/
structure Match where
  table : Table
  chain : String
  position : ℕ
  action : Option String
  enabled : Bool
  shadowed : Bool
  builtin : Bool
  packets : ℤ
  comment : String
  deriving DecidableEq, Repr

def Match.live (m : Match) : Bool := m.enabled && !m.shadowed

/-- `_BUILTIN[m["table"]][m["chain"]]`, empty where the chain is not built in. -/
def covers (t : Table) (c : String) : List String := ((builtin t).lookup c).getD []

section
variable (U : CaseMap) (T : CharTable)

def matchOf (t : Table) (pos : ℕ) (acceptedBefore : Bool) (r : Rule) : Match where
  table := t
  chain := chain r
  position := pos
  action := get r "action"
  enabled := enabled U r
  shadowed := enabled U r && acceptedBefore
  builtin := decide (chain r ∈ (builtin t).map Prod.fst)
  packets := int T (get r "packets")
  comment := orElse (get r "comment") ""

/-- The loop over the rules of a table, with the chains that an accept-all was seen in. -/
def scan (t : Table) (list : String) : ℕ → List String → List Rule → List Match
  | _, _, [] => []
  | pos, seen, r :: rest =>
    let seen' := if isUnconditionalAccept U r then seen ++ [chain r] else seen
    if names list r && blocks r then
      if chain r ∈ irrelevant then scan t list (pos + 1) seen rest
      else matchOf U T t pos (chain r ∈ seen) r :: scan t list (pos + 1) seen' rest
    else scan t list (pos + 1) seen' rest

structure Family where
  status : Status
  rules : List Match
  coverage : List String
  packets : ℤ
  customChains : List String
  deriving DecidableEq, Repr

end

section
variable {U : CaseMap} {T : CharTable} {t : Table} {list c : String} {m : Match} {r : Rule}

variable {tables : Table → Option (List Rule)}

end

end Protek.Blocking
