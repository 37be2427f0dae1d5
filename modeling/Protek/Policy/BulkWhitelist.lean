import Protek.Policy.ApprovalGate

/-! # The bulk action `whitelist`

The loop asks for an `ip` rule for each selected value and goes on where one is refused;
then the active decisions of all the values are tombstoned. A range, or a host written
with its prefix length, gets no rule.
-/
namespace Protek.Policy
open Foundation Foundation.PyText Foundation.IpAddress Foundation.Clock Protek.Store Protek.Mirror

section
variable (U : CaseMap) (T : CharTable)

/-- One round of the loop, with the count of the rules that were accepted. -/
def addBulk (now : Instant) (acc : ℕ × Db) (ip : String) : ℕ × Db :=
  match addWhitelist U T acc.2 "ip" ip "bulk whitelist via /decisions" none now with
  | .ok db' => (acc.1 + 1,db')
  | .error _ => acc

/-- `affected` and the database; without a selection nothing is done. -/
def bulkWhitelist (db : Db) (ips : Option String) (now : Instant) : ℕ × Db :=
  if splitIps ips = [] then (0,db)
  else
    let added := (splitIps ips).foldl (addBulk U T now) (0,db)
    (added.1,added.2.tombstone (fun r => r.value ∈ splitIps ips ∧ r.active) (isoformat now))

/-- A step of a later run: a writer, a pull, a cycle, an approval, or whatever else deletes no whitelist rule. -/
def LaterStep (db : Db) (e : Option QueueEvent) (db' : Db) : Prop :=
  match e with
  | some e => QueueStep U T db e db'
  | none => ∀ w ∈ db.whitelist.rows, w ∈ db'.whitelist.rows

/-- A rule without an expiry that spares the value came into the table. -/
def RuleStored (db db' : Db) (v : String) : Prop :=
  ∃ w ∈ db'.whitelist.rows, db.whitelistSeq < w.id ∧ w.expiresAt = none ∧ ∀ asn country, ruleMatches U v asn country w = true

end

section
variable {U : CaseMap} {T : CharTable} {db db' : Db} {now : Instant} {ips : Option String} {v : String}

theorem checkWhitelist_ip_error (hv : strip v = v) (h : (ipAddress v).isSome = false) :
    checkWhitelist U T "ip" v = .error "invalid IP" := by
  rw [checkWhitelist]
  simp [hv, h]

/-- A round stores the rule of an address and leaves everything else as it was. -/
theorem addBulk_cases (hv : strip v = v) (acc : ℕ × Db) :
    ((ipAddress v).isSome = true ∧ (addBulk U T now acc v).2 = { acc.2 with
      whitelist := (acc.2.whitelist.remove (fun r => r.key = (.ip,v))).upsert
        ⟨acc.2.whitelistSeq + 1,.ip,v,"bulk whitelist via /decisions",none,isoformat now⟩ id (fun _ => rfl)
      whitelistSeq := acc.2.whitelistSeq + 1 }) ∨
    ((ipAddress v).isSome = false ∧ addBulk U T now acc v = acc) := by
  rcases hb : (ipAddress v).isSome with _ | _
  · refine Or.inr ⟨rfl,?_⟩
    unfold addBulk addWhitelist
    rw [checkWhitelist_ip_error hv hb]
    rfl
  · refine Or.inl ⟨rfl,?_⟩
    unfold addBulk
    rw [(@addWhitelist_eq_ok U T acc.2 _ "ip" v "bulk whitelist via /decisions" none now).mpr
      ⟨_,BareAddress.checkWhitelist ⟨hv,hb⟩,rfl⟩]

/-- A rule for the value that is newer than an id. -/
def NewRule (db : Db) (seq : ℕ) (v : String) : Prop :=
  ∃ w ∈ db.whitelist.rows, seq < w.id ∧ w.expiresAt = none ∧ w.key = (.ip,v)

theorem NewRule.addBulk {seq : ℕ} {acc : ℕ × Db} {u : String} (hu : strip u = u) (hseq : seq ≤ acc.2.whitelistSeq)
    (h : NewRule acc.2 seq v) : NewRule (addBulk U T now acc u).2 seq v := by
  rcases @addBulk_cases U T now _ hu acc with ⟨-,heq⟩ | ⟨-,heq⟩
  · obtain ⟨w,hw,hid,hexp,hkey⟩ := h
    rw [heq]
    by_cases huv : u = v
    · subst huv
      exact ⟨_,mem_replaceRule.mpr (Or.inr rfl),Nat.lt_succ_of_le hseq,rfl,rfl⟩
    · refine ⟨w,mem_replaceRule.mpr (Or.inl ⟨hw,fun he => huv ?_⟩),hid,hexp,hkey⟩
      exact (congrArg Prod.snd (he.symm.trans hkey))
  · rwa [heq]

theorem NewRule.spared {seq : ℕ} (h : NewRule db seq v) : Spared db v := by
  obtain ⟨w,hw,-,hexp,hkey⟩ := h
  exact ⟨w,hw,hkey,hexp⟩

theorem NewRule.stored (h : NewRule db' db.whitelistSeq v) : RuleStored U db db' v := by
  obtain ⟨w,hw,hid,hexp,hkey⟩ := h
  have hkind : w.kind = .ip := congrArg Prod.fst hkey
  have hvalue : w.value = v := congrArg Prod.snd hkey
  exact ⟨w,hw,hid,hexp,fun _ _ => by simp [ruleMatches, hkind, hvalue]⟩

theorem LaterStep.spared {e : Option QueueEvent} (h : LaterStep U T db e db') (hs : Spared db v) : Spared db' v := by
  cases e with
  | some e => exact QueueStep.spared h hs
  | none =>
    obtain ⟨w,hw,hkey,hexp⟩ := hs
    exact ⟨w,h w hw,hkey,hexp⟩

end

def bulkPulled (value : String) : Db :=
  perform .ascii .ascii Db.empty ⟨0,.bootstrap "capi" [⟨1,value,"Range","ban","ssh-bf","","",none⟩]⟩

def rangeSelected : Db := (bulkWhitelist .ascii .ascii (bulkPulled "198.51.100.0/24") (some "198.51.100.0/24") hour).2

def pullAgain : Op := .streamApply "capi" [⟨2,"198.51.100.0/24","Range","ban","ssh-bf","","",none⟩] []

/-- The next pull brings back a range that got no rule. -/
def afterPull : Db := perform .ascii .ascii rangeSelected ⟨2 * hour,pullAgain⟩

end Protek.Policy
