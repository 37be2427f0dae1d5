import Protek.Foundation.IpAddress
import Protek.Foundation.Clock
import Protek.Store.Tables
import Mathlib.Data.List.Sort

/-! # Whitelist rules and the approval queue

Rules are checked when they are added and matched against the text of a decision's
value: an `ip` rule by string equality, a `cidr` rule by containment of a bare
address.
-/
namespace Protek.Policy
open Foundation Foundation.PyText Foundation.IpAddress Foundation.Clock Protek.Store

section
variable (U : CaseMap) (T : CharTable)

/-- The kind and the value that `add_whitelist` stores. -/
def checkWhitelist (kind value : String) : Except String (WhitelistKind × String) :=
  let value := strip value
  if kind = "ip" then
    if (ipAddress value).isSome then .ok (.ip,value) else .error "invalid IP"
  else if kind = "cidr" then
    if (ipNetwork value).isSome then .ok (.cidr,value) else .error "invalid CIDR"
  else if kind = "asn" then
    let digits := (dropStart value 2).toList
    if startsWith (U.upper value) "AS" ∧ digits ≠ [] ∧ digits.all T.isDigit then .ok (.asn,value)
    else .error "ASN must look like AS12345"
  else if kind = "country" then
    if value.toList.length = 2 ∧ value.toList.all T.isAlpha then .ok (.country,U.upper value)
    else .error "country must be 2-letter ISO code"
  else .error "invalid kind"

/-- INSERT OR REPLACE: a rule of the same kind and value goes first. -/
def addWhitelist (db : Db) (kind value note : String) (expiresAt : Option String) (now : Instant) : Except String Db := do
  let (kind,value) ← checkWhitelist U T kind value
  let rule : WhitelistRule := ⟨db.whitelistSeq + 1,kind,value,note,expiresAt,isoformat now⟩
  .ok { db with
    whitelist := (db.whitelist.remove (fun r => r.key = rule.key)).upsert rule id (fun _ => rfl)
    whitelistSeq := db.whitelistSeq + 1 }

/-- `list_whitelist(include_expired=False)`, newest first. -/
def listWhitelist (db : Db) (now : Instant) : List WhitelistRule :=
  (db.whitelist.rows.filter (fun w => match w.expiresAt with
    | none => true
    | some t => sqliteDatetime now < t)).insertionSort (fun a b => b.id ≤ a.id)

def ruleMatches (ip asn country : String) (w : WhitelistRule) : Bool :=
  match w.kind with
  | .ip => w.value = ip
  | .cidr =>
    match ipAddress ip, ipNetwork w.value with
    | some a, some n => n.contains a
    | _, _ => false
  | .asn => asn ≠ "" ∧ U.upper w.value = U.upper asn
  | .country => country ≠ "" ∧ U.upper w.value = U.upper country

def matchesWhitelist (ip asn country : String) (rules : List WhitelistRule) : Option WhitelistRule :=
  rules.find? (ruleMatches U ip asn country)

end

def recordWhitelistHit (db : Db) (ip : String) (whitelistId : ℕ) (scenario : String) (now : Instant) : Db :=
  { db with
    whitelistHits := db.whitelistHits.upsert ⟨db.whitelistHitsSeq + 1,ip,whitelistId,scenario,isoformat now⟩ id
      (fun _ => rfl)
    whitelistHitsSeq := db.whitelistHitsSeq + 1 }

def approvalRequired (settings : String → Option String) : Bool :=
  orElse (settings "settings.approval_required") "0" = "1"

def queueDecision (db : Db) (ip scope scenario origin originSource : String) (decisionId : Option ℤ) (now : Instant) : Db :=
  { db with
    approvalQueue := db.approvalQueue ++
      [⟨db.approvalQueueSeq + 1,ip,scope,scenario,origin,originSource,decisionId,.pending,isoformat now⟩]
    approvalQueueSeq := db.approvalQueueSeq + 1 }

/-! ## What the rules protect -/

/-- An address that an `ip` or a `cidr` rule promises to keep unblocked; a zone does not count. -/
def Covers (w : WhitelistRule) (a : Address) : Prop :=
  (w.kind = .ip ∧ ∃ b, ipAddress w.value = some b ∧ a.version = b.version ∧ a.value = b.value) ∨
  (w.kind = .cidr ∧ ∃ n, ipNetwork w.value = some n ∧ n.contains a = true)

/-- The network that a value denotes reaches an address that the rule covers. -/
def Blocks (value : String) (w : WhitelistRule) : Prop :=
  ∃ n, ipNetwork value = some n ∧ ∃ a, n.contains a = true ∧ Covers w a

theorem Network.contains_congr {n : Network} {a b : Address} (hv : a.version = b.version) (hn : a.value = b.value) :
    n.contains a = n.contains b := by
  unfold Network.contains
  rw [hv, hn]

theorem Covers.congr {w : WhitelistRule} {a b : Address} (hv : a.version = b.version) (hn : a.value = b.value)
    (h : Covers w a) : Covers w b := by
  rcases h with ⟨hk,c,hc,hcv,hcn⟩ | ⟨hk,n,hn',hin⟩
  · exact Or.inl ⟨hk,c,hc,hv.symm.trans hcv,hn.symm.trans hcn⟩
  · exact Or.inr ⟨hk,n,hn',Network.contains_congr hv hn ▸ hin⟩

/-- A bare address reaches a rule exactly when the rule covers it. -/
theorem blocks_iff_of_ipAddress {value : String} {a : Address} (h : ipAddress value = some a) (w : WhitelistRule) :
    Blocks value w ↔ Covers w a := by
  obtain ⟨n,hn,hc⟩ := ipNetwork_of_ipAddress h
  constructor
  · rintro ⟨m,hm,b,hb,hcov⟩
    rw [hn] at hm
    cases hm
    obtain ⟨hv,hval⟩ := (hc b).mp hb
    exact hcov.congr hv hval
  · intro hcov
    exact ⟨n,hn,a,(hc a).mpr ⟨rfl,rfl⟩,hcov⟩

section
variable {U : CaseMap} {T : CharTable}

/-- The rules of kind `ip` that `add_whitelist` accepts are addresses. -/
theorem ipAddress_of_checkWhitelist {kind raw value : String}
    (h : checkWhitelist U T kind raw = .ok (.ip,value)) : ∃ a, ipAddress value = some a := by
  unfold checkWhitelist at h
  by_cases hip : kind = "ip"
  · simp only [if_pos hip] at h
    by_cases hsome : (ipAddress (strip raw)).isSome = true
    · simp only [if_pos hsome, Except.ok.injEq, Prod.mk.injEq, true_and] at h
      exact h ▸ Option.isSome_iff_exists.mp hsome
    · simp [if_neg hsome] at h
  · -- the other branches store another kind
    simp only [if_neg hip] at h
    split at h
    · split at h <;> simp at h
    · split at h
      · split at h <;> simp at h
      · split at h
        · split at h <;> simp at h
        · simp at h

theorem addWhitelist_eq_ok {db db' : Db} {kind value note : String} {expiresAt : Option String} {now : Instant} :
    addWhitelist U T db kind value note expiresAt now = .ok db' ↔
      ∃ p, checkWhitelist U T kind value = .ok p ∧ db' = { db with
        whitelist := (db.whitelist.remove (fun r => r.key = p)).upsert
          ⟨db.whitelistSeq + 1,p.1,p.2,note,expiresAt,isoformat now⟩ id (fun _ => rfl)
        whitelistSeq := db.whitelistSeq + 1 } := by
  unfold addWhitelist
  cases checkWhitelist U T kind value with
  | error e => simp [bind, Except.bind]
  | ok p => simp [bind, Except.bind, WhitelistRule.key, eq_comm]

/-- INSERT OR REPLACE puts the rule in the place of the one with its key. -/
theorem mem_replaceRule {db : Db} {rule w : WhitelistRule} :
    w ∈ ((db.whitelist.remove (fun r => r.key = rule.key)).upsert rule id (fun _ => rfl)).rows ↔
      (w ∈ db.whitelist.rows ∧ w.key ≠ rule.key) ∨ w = rule := by
  have hnone : (db.whitelist.remove (fun r => r.key = rule.key)).find rule.key = none := by
    rw [KeyedTable.find_eq_none]
    intro r hr he
    simpa [he] using (KeyedTable.mem_remove.mp hr).2
  rw [KeyedTable.mem_upsert, hnone, KeyedTable.mem_remove]
  simp only [decide_eq_false_iff_not, Option.elim_none]
  tauto

theorem matchesWhitelist_isSome {ip asn country : String} {rules : List WhitelistRule} :
    (matchesWhitelist U ip asn country rules).isSome = true ↔ ∃ w ∈ rules, ruleMatches U ip asn country w = true :=
  List.find?_isSome

/-- With address rules only, a value is spared where it is spelled as an `ip` rule or is
a bare address inside a `cidr` rule. -/
theorem ruleMatches_iff {ip asn country : String} {w : WhitelistRule} (hk : w.kind = .ip ∨ w.kind = .cidr) :
    ruleMatches U ip asn country w = true ↔ (w.kind = .ip ∧ w.value = ip) ∨
      (w.kind = .cidr ∧ ∃ a n, ipAddress ip = some a ∧ ipNetwork w.value = some n ∧ n.contains a = true) := by
  unfold ruleMatches
  rcases hk with hk | hk
  · simp [hk]
  · cases ha : ipAddress ip with
    | none => simp [hk]
    | some a =>
      cases hn : ipNetwork w.value with
      | none => simp [hk]
      | some n => simp [hk]

end
end Protek.Policy
